import RapidRouter.Core.Router

/-!
# Wire dialects

The five shapes requests and responses come in, and the one each provider
kind speaks (`wire_dialect` of `router-providers`).
-/

namespace RapidRouter.Providers

open RapidRouter.Core

inductive Dialect where
  | openAi
  | anthropic
  | gemini
  | bedrock
  | codexResponses
  deriving DecidableEq, Repr

/-- `wire_dialect`: every kind has an adapter. -/
def wireDialect : ProviderKind → Option Dialect
  | .openAi | .openAiCompat | .azure => some .openAi
  | .anthropic => some .anthropic
  | .gemini | .vertex => some .gemini
  | .bedrock => some .bedrock
  | .claudeSubscription => some .anthropic
  | .codexSubscription => some .codexResponses

end RapidRouter.Providers
