import RapidRouter.Core.Chat
import RapidRouter.Core.Router
import RapidRouter.Lib.Json.Build

/-!
# A conversation as Codex input

`split_system_and_input` (`subscription.rs`): the system messages become the
instructions and the others the input, where calls and their results are lines of
text. Each role has a branch of its own, and each takes the texts and the images;
`split_iff` says when that is all there is to take.
-/

namespace RapidRouter.Providers.CodexInput

open Json RapidRouter.Core

/-! ## The input -/

/-- A part of a turn. -/
inductive Item where
  | text (s : String)
  | image (url : String) (detail : Option String)

structure Turn where
  assistant : Bool
  items : List Item

/-- An assistant turn's text is `output_text`. -/
def Item.value (assistant : Bool) : Item → Value
  | .text s =>
    .ofMembers [("type", .string (if assistant then "output_text" else "input_text")),
      ("text", .string s)]
  | .image url detail =>
    .ofMembers ([("type", .string "input_image"), ("image_url", .string url)] ++
      detail.toList.map fun detail => ("detail", .string detail))

def Turn.value (turn : Turn) : Value :=
  .ofMembers [("type", .string "message"),
    ("role", .string (if turn.assistant then "assistant" else "user")),
    ("content", .array (turn.items.map (Item.value turn.assistant)))]

/-! ## The split -/

/-- `image_value`: a blank detail is none. -/
def imageValue (image : ImageUrl) : Item := .image image.url (image.detail.filter (· ≠ ""))

/-- `image_parts` -/
def imageParts (message : Message) : Option (List Item) :=
  match message.content with
  | some (.parts ps) =>
    let images := ps.filterMap fun part =>
      match part with
      | .imageUrl image => some (imageValue image)
      | _ => none
    if images.isEmpty then none else some images
  | _ => none

def documentError : GatewayError :=
  (GatewayError.new .invalidRequest
    "this target cannot carry a document; it must be rasterized to images first").withParam
      "messages"

/-- One part of `content_parts`. Audio has no Responses equivalent. -/
def contentPart : ContentPart → Option (Except GatewayError Item)
  | .text s => some (.ok (.text s))
  | .imageUrl image => some (.ok (imageValue image))
  | .file _ => some (.error documentError)
  | .inputAudio _ => none

def contentParts : Content → Except GatewayError (List Item)
  | .text s => if s = "" then .ok [] else .ok [.text s]
  | .parts ps => (ps.filterMap contentPart).mapM id

def Item.isImage : Item → Bool
  | .image _ _ => true
  | .text _ => false

def callLine (call : ToolCall) : String :=
  "[tool_call id=" ++ call.id ++ " name=" ++ call.function.name ++ "] " ++ call.function.arguments

def resultLine (message : Message) : String :=
  "[tool_result for=" ++ message.toolCallId.getD "" ++ "] " ++
    (message.content.map Content.asText).getD ""

def isSystem (message : Message) : Prop := message.role = "system" ∨ message.role = "developer"

instance (message : Message) : Decidable (isSystem message) := inferInstanceAs (Decidable (_ ∨ _))

def contentOf (message : Message) : Except GatewayError (List Item) :=
  match message.content with
  | some c => contentParts c
  | none => .ok []

/-- The turns of a message that is of neither the system nor a tool. An image
under the assistant's role is refused, so it goes on a user turn before. -/
def turnsOf (message : Message) (content : List Item) : List Turn :=
  let assistant : Bool := message.role = "assistant"
  let images := if assistant then imageParts message else none
  let content := if images.isSome then content.filter fun item => !item.isImage else content
  let content := content ++ message.calls.map fun call => .text (callLine call)
  (images.toList.map fun images => ⟨false, images⟩) ++
    if content.isEmpty then [] else [⟨assistant, content⟩]

/-- What one message adds to the instructions and to the input. -/
def splitMessage (message : Message) : Except GatewayError (List String × List Turn) :=
  if isSystem message then
    .ok (message.content.toList.map Content.asText,
      (imageParts message).toList.map fun parts => ⟨false, parts⟩)
  else if message.role = "tool" then
    .ok ([], [⟨false, .text (resultLine message) :: (imageParts message).getD []⟩])
  else (contentOf message).map fun content => ([], turnsOf message content)

def splitMessages : List Message → Except GatewayError (List String × List Turn)
  | [] => .ok ([], [])
  | message :: rest => do
    let (instructions, input) ← splitMessage message
    let (instructions', input') ← splitMessages rest
    return (instructions ++ instructions', input ++ input')

/-- The instructions of the messages, when there are any. -/
def joined (instructions : List String) : Option String :=
  if instructions.isEmpty then none else some ("\n\n".intercalate instructions)

def splitSystemAndInput (messages : List Message) :
    Except GatewayError (Option String × List Value) :=
  (splitMessages messages).map fun out => (joined out.1, out.2.map Turn.value)

/-! ## What is carried -/

/-- A part that shows a piece of a message. No part is of an audio or a document. -/
def ItemShows : Item → Carrier → Prop
  | .text s, .text t => s = t
  | .text s, .call c => s = callLine c
  | .image url detail, .image i => url = i.url ∧ detail = i.detail.filter (· ≠ "")
  | _, _ => False

def Shows : List Item → List Carrier → Prop := List.Forall₂ ItemShows

/-- The texts of a message. -/
def textsOf (m : Message) : List String := m.parts.filterMap Carrier.asText

/-- The pieces that are no text. -/
def othersOf (m : Message) : List Carrier :=
  m.parts.filter (fun c => !c.isText) ++ m.calls.map Carrier.call

/-- The pieces with the images first. -/
def imagesFirst (m : Message) : List Carrier :=
  m.parts.filter Carrier.isImage ++
    (m.parts.filter (fun c => !c.isImage) ++ m.calls.map Carrier.call)

def itemsOf (turns : List Turn) : List Item := turns.flatMap Turn.items

/-- A message is shown as its role has it, every piece once: the texts of the system
in the instructions, those of a tool on the line of its result, and the others part
by part. -/
def Shown (m : Message) (out : List String × List Turn) : Prop :=
  if isSystem m then String.join out.1 = String.join (textsOf m) ∧ Shows (itemsOf out.2) (othersOf m)
  else if m.role = "tool" then
    out.1 = [] ∧ ∃ rest, itemsOf out.2 = .text (resultLine m) :: rest ∧ Shows rest (othersOf m)
  else
    out.1 = [] ∧
      Shows (itemsOf out.2) (if m.role = "assistant" then imagesFirst m else m.carriers)

/-- No assistant turn holds an image. -/
def Separate (turns : List Turn) : Prop :=
  ∀ turn ∈ turns, turn.assistant = true → ∀ item ∈ turn.items, item.isImage = false

/-- The instructions and the input show every message, one after the other. -/
def Carried (messages : List Message) (out : Option String × List Value) : Prop :=
  ∃ pieces : List (List String × List Turn), List.Forall₂ Shown messages pieces ∧
    out.1 = joined (pieces.flatMap Prod.fst) ∧
    out.2 = (pieces.flatMap Prod.snd).map Turn.value ∧ Separate (pieces.flatMap Prod.snd)

/-! ## What is lost -/

/-- A document on a turn of its own makes the split fail. -/
def Refused (m : Message) : Prop :=
  ¬ isSystem m ∧ m.role ≠ "tool" ∧ ∃ c ∈ m.parts, c.isDocument = true

/-- The pieces of a message that no branch takes. -/
def lost (m : Message) : List Carrier :=
  if isSystem m ∨ m.role = "tool" then (othersOf m).filter fun c => !c.isImage
  else m.carriers.filter fun c => c.isAudio || c.isDocument

/-- How many parts a message needs. -/
def needed (m : Message) : Nat :=
  if isSystem m then (othersOf m).length
  else if m.role = "tool" then (othersOf m).length + 1
  else m.carriers.length

/-! ## The parts of a message -/

/-- The part that is made of a piece. -/
def itemOf : Carrier → Option Item
  | .text s => some (.text s)
  | .image i => some (imageValue i)
  | .call c => some (.text (callLine c))
  | .audio _ => none
  | .document _ => none

theorem shows_itemOf {cs : List Carrier} (h : ∀ c ∈ cs, (itemOf c).isSome = true) :
    Shows (cs.filterMap itemOf) cs := by
  induction cs with
  | nil => exact .nil
  | cons c cs ih =>
    have hrest := ih fun d hd => h d (List.mem_cons_of_mem _ hd)
    have hc := h c List.mem_cons_self
    rw [List.filterMap_cons]
    cases c with
    | text s => exact .cons rfl hrest
    | image i => exact .cons ⟨rfl, rfl⟩ hrest
    | call c => exact .cons rfl hrest
    | audio _ | document _ => cases hc

/-- The pieces that no part shows. -/
def Mute (c : Carrier) : Bool := c.isAudio || c.isDocument

theorem mute_eq (c : Carrier) : Mute c = (itemOf c).isNone := by cases c <;> rfl

theorem itemOf_isImage {c : Carrier} {item : Item} (h : itemOf c = some item) :
    item.isImage = c.isImage := by
  cases c with
  | text _ | image _ | call _ =>
    cases h
    rfl
  | audio _ | document _ => cases h

theorem itemOf_isSome {c : Carrier} (h : Mute c = false) : (itemOf c).isSome = true := by
  rw [mute_eq, Option.isNone_eq_false_iff] at h
  exact h

theorem length_itemOf (cs : List Carrier) :
    (cs.filterMap itemOf).length + (cs.filter Mute).length = cs.length := by
  induction cs with
  | nil => rfl
  | cons c cs ih =>
    cases hitem : itemOf c with
    | some item =>
      have hmute : ¬ Mute c = true := by
        rw [mute_eq, hitem]
        exact Bool.false_ne_true
      rw [List.filterMap_cons_some hitem, List.filter_cons_of_neg hmute, List.length_cons,
        List.length_cons]
      omega
    | none =>
      have hmute : Mute c = true := by
        rw [mute_eq, hitem]
        rfl
      rw [List.filterMap_cons_none hitem, List.filter_cons_of_pos hmute, List.length_cons,
        List.length_cons]
      omega

/-- Images are taken out of the parts as they are of the pieces. -/
theorem filter_itemOf (cs : List Carrier) :
    ((cs.filterMap itemOf).filter fun item => !item.isImage) =
      (cs.filter fun c => !c.isImage).filterMap itemOf := by
  rw [List.filter_filterMap, List.filterMap_filter]
  apply List.filterMap_congr
  intro c _
  cases hitem : itemOf c with
  | some item =>
    rw [← itemOf_isImage hitem]
    cases himage : item.isImage with
    | true => exact Option.filter_some_neg (by rw [himage]; rfl)
    | false => exact Option.filter_some_pos (by rw [himage]; rfl)
  | none => exact (ite_self none).symm

theorem filterMap_calls (calls : List ToolCall) :
    (calls.map Carrier.call).filterMap itemOf = calls.map fun call => .text (callLine call) := by
  rw [List.filterMap_map, ← List.filterMap_eq_map]
  rfl

theorem parts_of_content {m : Message} {content : Content} (h : m.content = some content) :
    m.parts = content.carriers := by
  unfold Message.parts
  rw [h]
  rfl

theorem parts_of_none {m : Message} (h : m.content = none) : m.parts = [] := by
  unfold Message.parts
  rw [h]
  rfl

/-- The images of a message, when it has any. -/
theorem imageParts_eq (m : Message) : imageParts m =
    if ((m.parts.filter Carrier.isImage).filterMap itemOf).isEmpty then none
    else some ((m.parts.filter Carrier.isImage).filterMap itemOf) := by
  unfold imageParts
  cases hcontent : m.content with
  | none =>
    rw [parts_of_none hcontent]
    rfl
  | some content =>
    rw [parts_of_content hcontent]
    cases content with
    | text s =>
      show none = if (((if s = "" then [] else [Carrier.text s]).filter Carrier.isImage).filterMap
        itemOf).isEmpty then none else _
      by_cases hs : s = ""
      · rw [if_pos hs]
        rfl
      · rw [if_neg hs]
        rfl
    | parts ps =>
      have himages : (ps.filterMap fun part =>
          match part with
          | .imageUrl image => some (imageValue image)
          | _ => none) = ((ps.map ContentPart.carrier).filter Carrier.isImage).filterMap itemOf := by
        rw [List.filterMap_filter, List.filterMap_map]
        apply List.filterMap_congr
        intro part _
        cases part <;> rfl
      show (if _ then none else some _) = _
      rw [himages]
      rfl

theorem contentParts_eq (c : Content) : contentParts c =
    if c.carriers.any Carrier.isDocument then .error documentError
    else .ok (c.carriers.filterMap itemOf) := by
  cases c with
  | text s =>
    rw [carriers_text]
    show (if s = "" then Except.ok [] else .ok [Item.text s]) = _
    by_cases hs : s = ""
    · rw [if_pos hs, if_pos hs]
      rfl
    · rw [if_neg hs, if_neg hs]
      rfl
  | parts ps =>
    show (ps.filterMap contentPart).mapM id =
      if (ps.map ContentPart.carrier).any Carrier.isDocument then _
      else .ok ((ps.map ContentPart.carrier).filterMap itemOf)
    induction ps with
    | nil => rfl
    | cons part ps ih =>
      have hpart : ∀ item, contentPart part = some (.ok item) → itemOf part.carrier = some item →
          part.carrier.isDocument = false → ((part :: ps).filterMap contentPart).mapM id =
            if ((part :: ps).map ContentPart.carrier).any Carrier.isDocument then
              .error documentError
            else .ok (((part :: ps).map ContentPart.carrier).filterMap itemOf) := by
        intro item hcontent hitem hdocument
        rw [List.filterMap_cons_some hcontent, List.mapM_cons, ih, List.map_cons, List.any_cons,
          hdocument, Bool.false_or, List.filterMap_cons_some hitem]
        cases (ps.map ContentPart.carrier).any Carrier.isDocument <;> rfl
      cases part with
      | text s => exact hpart _ rfl rfl rfl
      | imageUrl image => exact hpart _ rfl rfl rfl
      | inputAudio audio => exact ih
      | file v => rfl

/-! ## One message -/

theorem contentOf_eq (m : Message) : contentOf m =
    if m.parts.any Carrier.isDocument then .error documentError
    else .ok (m.parts.filterMap itemOf) := by
  unfold contentOf
  cases hcontent : m.content with
  | none =>
    rw [parts_of_none hcontent]
    rfl
  | some content =>
    rw [parts_of_content hcontent]
    exact contentParts_eq content

theorem itemsOf_imageParts (m : Message) :
    itemsOf ((imageParts m).toList.map fun parts => ⟨false, parts⟩) =
      (m.parts.filter Carrier.isImage).filterMap itemOf := by
  rw [imageParts_eq]
  split
  · next hempty => exact (List.isEmpty_iff.mp hempty).symm
  · exact List.append_nil _

theorem getD_imageParts (m : Message) :
    (imageParts m).getD [] = (m.parts.filter Carrier.isImage).filterMap itemOf := by
  rw [imageParts_eq]
  split
  · next hempty => exact (List.isEmpty_iff.mp hempty).symm
  · rfl

/-- A turn that would be empty is none. -/
theorem itemsOf_some (assistant : Bool) (content : List Item) :
    itemsOf (if content.isEmpty then [] else [⟨assistant, content⟩]) = content := by
  cases content with
  | nil => rfl
  | cons item rest => exact List.append_nil _

theorem eq_of_mem_some {assistant : Bool} {content : List Item} {turn : Turn}
    (h : turn ∈ if content.isEmpty then [] else [Turn.mk assistant content]) :
    turn = ⟨assistant, content⟩ := by
  cases content with
  | nil => cases h
  | cons item rest => exact List.mem_singleton.mp h

theorem itemsOf_append (a b : List Turn) : itemsOf (a ++ b) = itemsOf a ++ itemsOf b :=
  List.flatMap_append

theorem no_images {m : Message} (h : imageParts m = none) : ∀ c ∈ m.parts, c.isImage = false := by
  intro c hc
  cases himage : c.isImage with
  | false => rfl
  | true =>
    rw [imageParts_eq] at h
    split at h
    · next hempty =>
      cases c with
      | image i =>
        have hmem : imageValue i ∈ (m.parts.filter Carrier.isImage).filterMap itemOf :=
          List.mem_filterMap.mpr ⟨.image i, List.mem_filter.mpr ⟨hc, rfl⟩, rfl⟩
        rw [List.isEmpty_iff.mp hempty] at hmem
        cases hmem
      | text _ | call _ | audio _ | document _ => cases himage
    · cases h

/-- The parts of an assistant's turn. -/
theorem kept_images (m : Message) :
    (if (imageParts m).isSome then (m.parts.filterMap itemOf).filter fun item => !item.isImage
      else m.parts.filterMap itemOf) = (m.parts.filter fun c => !c.isImage).filterMap itemOf := by
  cases himages : imageParts m with
  | some images =>
    rw [if_pos Option.isSome_some]
    exact filter_itemOf m.parts
  | none =>
    have hall : m.parts.filter (fun c => !c.isImage) = m.parts := by
      rw [List.filter_eq_self]
      intro c hc
      rw [no_images himages c hc]
      rfl
    rw [hall]
    rfl

/-- The parts of a message of the user or the assistant. -/
theorem itemsOf_turnsOf (m : Message) : itemsOf (turnsOf m (m.parts.filterMap itemOf)) =
    (if m.role = "assistant" then imagesFirst m else m.carriers).filterMap itemOf := by
  unfold turnsOf
  dsimp only
  rw [itemsOf_append, itemsOf_some, ← filterMap_calls]
  by_cases hrole : m.role = "assistant"
  · rw [if_pos hrole, if_pos (decide_eq_true hrole), kept_images, itemsOf_imageParts]
    unfold imagesFirst
    rw [List.filterMap_append, List.filterMap_append]
  · rw [if_neg hrole, if_neg (by rw [decide_eq_true_eq]; exact hrole)]
    unfold Message.carriers
    rw [List.filterMap_append]
    rfl

/-- No image is left on an assistant's turn. -/
theorem separate_turnsOf (m : Message) : Separate (turnsOf m (m.parts.filterMap itemOf)) := by
  intro turn hturn hassistant item hitem
  unfold turnsOf at hturn
  dsimp only at hturn
  rcases List.mem_append.mp hturn with himages | hcontent
  · obtain ⟨images, _, rfl⟩ := List.mem_map.mp himages
    cases hassistant
  · rw [eq_of_mem_some hcontent] at hassistant hitem
    dsimp only at hassistant hitem
    rw [if_pos hassistant, kept_images, ← filter_itemOf] at hitem
    rcases List.mem_append.mp hitem with hpart | hcall
    · have hkept := (List.mem_filter.mp hpart).2
      rw [Bool.not_eq_true'] at hkept
      exact hkept
    · obtain ⟨call, _, rfl⟩ := List.mem_map.mp hcall
      rfl

theorem images_of_others (m : Message) :
    (othersOf m).filter Carrier.isImage = m.parts.filter Carrier.isImage := by
  unfold othersOf
  have hcalls : (m.calls.map Carrier.call).filter Carrier.isImage = [] := by
    rw [List.filter_eq_nil_iff]
    intro c hc
    obtain ⟨call, _, rfl⟩ := List.mem_map.mp hc
    exact Bool.false_ne_true
  rw [List.filter_append, hcalls, List.append_nil, List.filter_filter]
  apply List.filter_congr
  intro c _
  cases c <;> rfl

theorem shows_images (m : Message) : Shows ((m.parts.filter Carrier.isImage).filterMap itemOf)
    (m.parts.filter Carrier.isImage) := by
  apply shows_itemOf
  intro c hc
  have himage := (List.mem_filter.mp hc).2
  cases c with
  | image i => rfl
  | text _ | call _ | audio _ | document _ => cases himage

/-- Without a loss, the other pieces of a message of the system or a tool are images. -/
theorem others_of_lost {m : Message} (h : ((othersOf m).filter fun c => !c.isImage) = []) :
    othersOf m = m.parts.filter Carrier.isImage := by
  rw [← images_of_others, eq_comm, List.filter_eq_self]
  intro c hc
  have hkept := List.filter_eq_nil_iff.mp h c hc
  rw [Bool.not_eq_true', Bool.not_eq_false] at hkept
  exact hkept

theorem length_others (m : Message) :
    ((m.parts.filter Carrier.isImage).filterMap itemOf).length +
      ((othersOf m).filter fun c => !c.isImage).length = (othersOf m).length := by
  rw [(shows_images m).length_eq, ← images_of_others]
  exact (List.length_eq_length_filter_add Carrier.isImage).symm

theorem imagesFirst_perm (m : Message) : (imagesFirst m).Perm m.carriers := by
  unfold imagesFirst Message.carriers
  rw [← List.append_assoc]
  exact (List.filter_append_perm Carrier.isImage m.parts).append_right _

theorem parts_join (m : Message) :
    (m.content.map Content.asText).getD "" = String.join (textsOf m) := by
  unfold textsOf
  cases hcontent : m.content with
  | none =>
    rw [parts_of_none hcontent]
    rfl
  | some content =>
    rw [parts_of_content hcontent]
    exact asText_carriers content

/-- What a message adds, unless it is refused. -/
theorem splitMessage_spec {m : Message} (h : ¬ Refused m) : ∃ out, splitMessage m = .ok out ∧
    (lost m = [] → Shown m out) ∧ (itemsOf out.2).length + (lost m).length = needed m ∧
    Separate out.2 := by
  unfold splitMessage
  by_cases hsystem : isSystem m
  · rw [if_pos hsystem]
    have hlost : lost m = (othersOf m).filter fun c => !c.isImage := if_pos (.inl hsystem)
    refine ⟨_, rfl, ?_, ?_, ?_⟩
    · intro hnone
      unfold Shown
      rw [if_pos hsystem, itemsOf_imageParts, others_of_lost (hlost ▸ hnone), ← parts_join]
      refine ⟨?_, shows_images m⟩
      cases m.content with
      | none => rfl
      | some content =>
        show String.join [content.asText] = content.asText
        rw [String.join_cons, String.join_nil, String.append_empty]
    · unfold needed
      rw [itemsOf_imageParts, hlost, if_pos hsystem]
      exact length_others m
    · intro turn hturn hassistant
      obtain ⟨images, _, rfl⟩ := List.mem_map.mp hturn
      cases hassistant
  · rw [if_neg hsystem]
    by_cases htool : m.role = "tool"
    · rw [if_pos htool]
      have hlost : lost m = (othersOf m).filter fun c => !c.isImage := if_pos (.inr htool)
      have hitems : itemsOf [⟨false, .text (resultLine m) :: (imageParts m).getD []⟩] =
          .text (resultLine m) :: (m.parts.filter Carrier.isImage).filterMap itemOf := by
        rw [← getD_imageParts]
        exact List.append_nil _
      refine ⟨_, rfl, ?_, ?_, ?_⟩
      · intro hnone
        unfold Shown
        rw [if_neg hsystem, if_pos htool, hitems, others_of_lost (hlost ▸ hnone)]
        exact ⟨rfl, _, rfl, shows_images m⟩
      · unfold needed
        rw [hitems, hlost, if_neg hsystem, if_pos htool, List.length_cons, ← length_others m]
        omega
      · intro turn hturn hassistant
        rw [List.mem_singleton] at hturn
        subst hturn
        cases hassistant
    · rw [if_neg htool]
      have hdocuments : m.parts.any Carrier.isDocument = false := by
        rw [List.any_eq_false]
        intro c hc hdocument
        exact h ⟨hsystem, htool, c, hc, hdocument⟩
      have hlost : lost m = m.carriers.filter Mute := if_neg (not_or.mpr ⟨hsystem, htool⟩)
      have hcontent : contentOf m = .ok (m.parts.filterMap itemOf) := by
        rw [contentOf_eq, hdocuments]
        rfl
      have hperm : (if m.role = "assistant" then imagesFirst m else m.carriers).Perm m.carriers := by
        split
        · exact imagesFirst_perm m
        · exact .refl _
      rw [hcontent]
      refine ⟨_, rfl, ?_, ?_, separate_turnsOf m⟩
      · intro hnone
        unfold Shown
        rw [if_neg hsystem, if_neg htool, itemsOf_turnsOf]
        refine ⟨rfl, shows_itemOf ?_⟩
        intro c hc
        apply itemOf_isSome
        rw [← Bool.not_eq_true]
        exact List.filter_eq_nil_iff.mp (hlost ▸ hnone) c (hperm.mem_iff.mp hc)
      · unfold needed
        rw [if_neg hsystem, if_neg htool, itemsOf_turnsOf, hlost, ← hperm.length_eq,
          ← (hperm.filter Mute).length_eq]
        exact length_itemOf _

theorem splitMessage_refused {m : Message} (h : Refused m) :
    splitMessage m = .error documentError := by
  obtain ⟨hsystem, htool, hdocument⟩ := h
  unfold splitMessage
  rw [if_neg hsystem, if_neg htool, contentOf_eq, if_pos (List.any_eq_true.mpr hdocument)]
  rfl

/-! ## All of them -/

/-- What a message adds, with what is missing. -/
structure Adds (m : Message) (out : List String × List Turn) : Prop where
  shown : lost m = [] → Shown m out
  count : (itemsOf out.2).length + (lost m).length = needed m
  separate : Separate out.2

theorem splitMessages_refused {messages : List Message} (h : ∃ m ∈ messages, Refused m) :
    ∃ e, splitMessages messages = .error e := by
  induction messages with
  | nil =>
    obtain ⟨m, hm, _⟩ := h
    cases hm
  | cons m rest ih =>
    unfold splitMessages
    by_cases hm : Refused m
    · rw [splitMessage_refused hm]
      exact ⟨documentError, rfl⟩
    · obtain ⟨out, hout, _⟩ := splitMessage_spec hm
      obtain ⟨m', hmem, hrefused⟩ := h
      have hrest : ∃ m ∈ rest, Refused m := by
        rcases List.mem_cons.mp hmem with rfl | hmem
        · exact absurd hrefused hm
        · exact ⟨m', hmem, hrefused⟩
      obtain ⟨e, he⟩ := ih hrest
      rw [hout, he]
      exact ⟨e, rfl⟩

theorem splitMessages_spec {messages : List Message} (h : ∀ m ∈ messages, ¬ Refused m) :
    ∃ pieces, List.Forall₂ Adds messages pieces ∧
      splitMessages messages = .ok (pieces.flatMap Prod.fst, pieces.flatMap Prod.snd) := by
  induction messages with
  | nil => exact ⟨[], .nil, rfl⟩
  | cons m rest ih =>
    obtain ⟨out, hout, hshown, hcount, hseparate⟩ := splitMessage_spec (h m List.mem_cons_self)
    obtain ⟨pieces, hall, hrest⟩ := ih fun m hm => h m (List.mem_cons_of_mem _ hm)
    refine ⟨out :: pieces, .cons ⟨hshown, hcount, hseparate⟩ hall, ?_⟩
    unfold splitMessages
    rw [hout, hrest]
    rfl

theorem length_of_shown {m : Message} {out : List String × List Turn} (h : Shown m out) :
    (itemsOf out.2).length = needed m := by
  unfold Shown at h
  unfold needed
  by_cases hsystem : isSystem m
  · rw [if_pos hsystem] at h ⊢
    exact h.2.length_eq
  · rw [if_neg hsystem] at h ⊢
    by_cases htool : m.role = "tool"
    · rw [if_pos htool] at h ⊢
      obtain ⟨rest, hitems, hrest⟩ := h.2
      rw [hitems, List.length_cons, hrest.length_eq]
    · rw [if_neg htool] at h ⊢
      rw [h.2.length_eq]
      split
      · exact (imagesFirst_perm m).length_eq
      · rfl

theorem length_of_all_shown {messages : List Message} {pieces : List (List String × List Turn)}
    (h : List.Forall₂ Shown messages pieces) :
    (itemsOf (pieces.flatMap Prod.snd)).length = (messages.map needed).sum := by
  induction h with
  | nil => rfl
  | cons hshown _ ih =>
    rw [List.flatMap_cons, itemsOf_append, List.length_append, List.map_cons, List.sum_cons,
      length_of_shown hshown, ih]

theorem length_of_all_added {messages : List Message} {pieces : List (List String × List Turn)}
    (h : List.Forall₂ Adds messages pieces) :
    (itemsOf (pieces.flatMap Prod.snd)).length + (messages.map fun m => (lost m).length).sum =
      (messages.map needed).sum := by
  induction h with
  | nil => rfl
  | cons hadds _ ih =>
    have hcount := hadds.count
    rw [List.flatMap_cons, itemsOf_append, List.length_append, List.map_cons, List.sum_cons,
      List.map_cons, List.sum_cons]
    omega

theorem carried_of_adds {messages : List Message} {pieces : List (List String × List Turn)}
    (h : List.Forall₂ Adds messages pieces) (hnone : ∀ m ∈ messages, lost m = []) :
    List.Forall₂ Shown messages pieces ∧ Separate (pieces.flatMap Prod.snd) := by
  induction h with
  | nil => exact ⟨.nil, fun turn hturn => by cases hturn⟩
  | cons hadds _ ih =>
    obtain ⟨hshown, hseparate⟩ := ih fun m hm => hnone m (List.mem_cons_of_mem _ hm)
    refine ⟨.cons (hadds.shown (hnone _ List.mem_cons_self)) hshown, ?_⟩
    intro turn hturn
    rcases List.mem_append.mp hturn with hfirst | hrest
    · exact hadds.separate turn hfirst
    · exact hseparate turn hrest

/-! ## What a turn is read as -/

section
variable (assistant : Bool)

theorem get?_text (s : String) : (Item.value assistant (.text s)).get? "type" =
      some (.string (if assistant then "output_text" else "input_text")) ∧
    (Item.value assistant (.text s)).get? "text" = some (.string s) := by
  simp [Item.value, Value.get?_ofMembers]

theorem get?_image (url : String) (detail : Option String) :
    (Item.value assistant (.image url detail)).get? "type" = some (.string "input_image") ∧
      (Item.value assistant (.image url detail)).get? "image_url" = some (.string url) ∧
      (Item.value assistant (.image url detail)).get? "detail" = detail.map Value.string := by
  cases detail <;> simp [Item.value, Value.get?_ofMembers]

theorem value_text_ne (s url : String) (detail : Option String) :
    Item.value assistant (.text s) ≠ Item.value assistant (.image url detail) := by
  intro h
  have htype := congrArg (Value.get? · "type") h
  rw [(get?_text assistant s).1, (get?_image assistant url detail).1] at htype
  cases assistant with
  | true => exact absurd (Value.string.inj (Option.some.inj htype)) (by decide)
  | false => exact absurd (Value.string.inj (Option.some.inj htype)) (by decide)

theorem value_item_injective : Function.Injective (Item.value assistant) := by
  intro a b h
  cases a with
  | text s =>
    cases b with
    | text t =>
      have htext := congrArg (Value.get? · "text") h
      rw [(get?_text assistant s).2, (get?_text assistant t).2] at htext
      rw [Value.string.inj (Option.some.inj htext)]
    | image url detail => exact absurd h (value_text_ne assistant s url detail)
  | image url detail =>
    cases b with
    | text t => exact absurd h.symm (value_text_ne assistant t url detail)
    | image url' detail' =>
      have hurl := congrArg (Value.get? · "image_url") h
      have hdetail := congrArg (Value.get? · "detail") h
      rw [(get?_image assistant url detail).2.1, (get?_image assistant url' detail').2.1] at hurl
      rw [(get?_image assistant url detail).2.2, (get?_image assistant url' detail').2.2] at hdetail
      rw [Value.string.inj (Option.some.inj hurl),
        Option.map_injective (fun _ _ => Value.string.inj) hdetail]

end

theorem value_turn_injective : Function.Injective Turn.value := by
  have hread : ∀ turn : Turn,
      turn.value.get? "role" = some (.string (if turn.assistant then "assistant" else "user")) ∧
        turn.value.get? "content" = some (.array (turn.items.map (Item.value turn.assistant))) := by
    intro turn
    simp [Turn.value, Value.get?_ofMembers]
  intro a b h
  have hrole := congrArg (Value.get? · "role") h
  have hcontent := congrArg (Value.get? · "content") h
  rw [(hread a).1, (hread b).1] at hrole
  rw [(hread a).2, (hread b).2] at hcontent
  obtain ⟨assistant, items⟩ := a
  obtain ⟨assistant', items'⟩ := b
  have hnames : ∀ x y : Bool, (if x then "assistant" else "user") =
      (if y then "assistant" else "user") → x = y := by
    decide
  have hsame : assistant = assistant' := hnames _ _ (Value.string.inj (Option.some.inj hrole))
  subst hsame
  have hitems : items = items' := List.map_injective_iff.mpr (value_item_injective assistant)
    (Value.array.inj (Option.some.inj hcontent))
  rw [hitems]

/-- **A conversation as Codex input.** It is refused, or every message is carried,
unless a message has an audio part, or one of the system or a tool has a document or
a call: those are dropped. -/
theorem split_iff (messages : List Message) :
    (∀ out, splitSystemAndInput messages = .ok out → Carried messages out) ↔
      (∃ m ∈ messages, Refused m) ∨ ∀ m ∈ messages, lost m = [] := by
  by_cases hrefused : ∃ m ∈ messages, Refused m
  · obtain ⟨e, he⟩ := splitMessages_refused hrefused
    refine ⟨fun _ => .inl hrefused, fun _ out hout => ?_⟩
    unfold splitSystemAndInput at hout
    rw [he] at hout
    cases hout
  · obtain ⟨pieces, hadds, hsplit⟩ := splitMessages_spec
      fun m hm hr => hrefused ⟨m, hm, hr⟩
    have hout : splitSystemAndInput messages = .ok
        (joined (pieces.flatMap Prod.fst), (pieces.flatMap Prod.snd).map Turn.value) := by
      unfold splitSystemAndInput
      rw [hsplit]
      rfl
    constructor
    · intro hall
      right
      obtain ⟨pieces', hshown, -, hinput, -⟩ := hall _ hout
      -- As many parts are there as the messages need, so none is missing.
      have hsame := List.map_injective_iff.mpr value_turn_injective hinput
      have hneeded := length_of_all_shown hshown
      have hadded := length_of_all_added hadds
      rw [← hsame] at hneeded
      have hzero : (messages.map fun m => (lost m).length).sum = 0 := by omega
      intro m hm
      rw [List.sum_eq_zero_iff_forall_eq_nat] at hzero
      exact List.length_eq_zero_iff.mp (hzero _ (List.mem_map_of_mem hm))
    · rintro (hr | hnone) out hok
      · exact absurd hr hrefused
      · rw [hout] at hok
        cases hok
        obtain ⟨hshown, hseparate⟩ := carried_of_adds hadds hnone
        exact ⟨pieces, hshown, rfl, rfl, hseparate⟩

/-- A tool that answers with a document. -/
def fileResult : List Message :=
  [{ role := "tool"
     content := some (.parts [.file (.ofMembers [("file_id", .string "f")])])
     toolCalls := none, toolCallId := some "c", name := none }]

/-- The document is dropped without an error. -/
theorem fileResult_lost :
    ∃ out, splitSystemAndInput fileResult = .ok out ∧ ¬ Carried fileResult out := by
  refine ⟨_, rfl, ?_⟩
  rintro ⟨pieces, hshown, -⟩
  cases hshown with
  | cons hfirst _ =>
    unfold Shown at hfirst
    rw [if_neg (by decide), if_pos (by decide)] at hfirst
    obtain ⟨-, rest, -, hrest⟩ := hfirst
    cases hrest with
    | cons hshows _ =>
      revert hshows
      rename_i item _ _
      cases item <;> exact id

end RapidRouter.Providers.CodexInput
