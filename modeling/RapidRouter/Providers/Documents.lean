import RapidRouter.Providers.CodexInput
import RapidRouter.Providers.Turns

/-!
# Documents as images

`router-media`, for the target that has no part for a document: `rasterize_request`
puts the images of its pages where the document was. What a PDF's pages look like, and
what base64 says, is the renderer's; which of the pages are sent is decided here, by
their number and by their size.

`documents_rendered` says what becomes of every message, and that the Codex input has
all of it that `split_system_and_input` takes of messages without documents.
-/

namespace RapidRouter.Providers.Documents

open Json Core Fallible
open CodexInput (isSystem splitSystemAndInput Carried lost)
open Turns (invalid)

/-! ## Rendering -/

structure RasterSettings where
  dpi : Nat := 150
  maxPages : Nat := 50
  maxTotalBytes : Nat := 24 * 1024 * 1024

structure RasterReport where
  documents : Nat
  pagesRendered : Nat
  pagesDropped : Nat

/-- Base64, and the pages of a PDF at a resolution, each as it is encoded. -/
structure Renderer where
  decode : String → Option Bytes
  encode : Bytes → String
  pages : Nat → Bytes → Except String (List (Except String Bytes))

/-- `parse_data_uri`: the media type and the payload. -/
def parseDataUri (uri : String) : Except GatewayError (String × String) :=
  match Text.stripPrefix "data:" uri with
  | none => .error (invalid "attachment must be a `data:` URI")
  | some rest =>
    match Text.splitOnce ',' rest with
    | none => .error (invalid "malformed data URI: missing `,` separator")
    | some (header, payload) =>
      let mediaType := Text.toAsciiLowercase (Text.trim ((Text.split ';' header).headD ""))
      -- `contains`
      if (Text.splitOnceStr ";base64" header).isNone then
        .error (invalid "malformed data URI: only `;base64` payloads are supported")
      else if mediaType = "" then .error (invalid "malformed data URI: missing media type")
      else if payload = "" then .error (invalid "malformed data URI: empty payload")
      else .ok (mediaType, payload)

def supportedDocumentMediaTypes : List String := ["application/pdf"]

section
variable (R : Renderer) (settings : RasterSettings)

def documentBytes (file : Value) : Except GatewayError Bytes :=
  let inner := (file.get? "file").getD file
  match ((inner.get? "file_data").or (inner.get? "file_url")).bind Value.asStr with
  | none =>
    if (inner.get? "file_id").isSome then
      .error (invalid ("file blocks referencing `file_id` are not supported; inline the " ++
        "document as a base64 `file_data` data URI instead"))
    else .error (invalid "file block is missing `file_data`")
  | some dataUri => do
    let (mediaType, payload) ← parseDataUri dataUri
    if mediaType ∉ supportedDocumentMediaTypes then
      .error (invalid ("unsupported document media type `" ++ mediaType ++ "`; supported: " ++
        ", ".intercalate supportedDocumentMediaTypes))
    else
      match R.decode payload with
      | some data => .ok data
      | none => .error (invalid "malformed base64 payload for document")

/-- The loop of `render_pdf`, over the pages that are left. The page that would be too
much is not sent, unless it is the first. -/
def collect : List (Except String Bytes) → Nat → List Bytes → Except GatewayError (List Bytes)
  | [], _, out => .ok out
  | .error e :: _, _, _ =>
    .error (GatewayError.new .upstreamError ("could not encode a rendered PDF page: " ++ e))
  | .ok png :: rest, bytes, out =>
    if settings.maxTotalBytes < bytes + png.length ∧ out ≠ [] then .ok out
    else collect rest (bytes + png.length) (out ++ [png])

/-- The pages that are sent, and how many there are. -/
def renderPdf (data : Bytes) : Except GatewayError (List Bytes × Nat) :=
  match R.pages settings.dpi data with
  | .error e => .error (invalid ("could not read the supplied PDF: " ++ e))
  | .ok pages =>
    if pages = [] then .error (invalid "PDF contains no pages")
    else do
      let out ← collect settings (pages.take settings.maxPages) 0 []
      if out = [] then .error (invalid "PDF produced no renderable pages")
      else .ok (out, pages.length)

def pageImage (png : Bytes) : ImageUrl := ⟨"data:image/png;base64," ++ R.encode png, none⟩

def isFile : ContentPart → Bool
  | .file _ => true
  | .text _ | .imageUrl _ | .inputAudio _ => false

/-- `has_documents` -/
def hasDocuments (req : ChatRequest) : Bool :=
  req.messages.any fun m =>
    match m.content with
    | some (.parts parts) => parts.any isFile
    | some (.text _) | none => false

/-- A part, and what is reported of it. -/
def onPart : ContentPart → Except GatewayError (List ContentPart × RasterReport)
  | .file file => do
    let data ← documentBytes R file
    let (pages, total) ← renderPdf R settings data
    return (pages.map fun png => .imageUrl (pageImage R png),
      ⟨1, pages.length, total - pages.length⟩)
  | other => .ok ([other], ⟨0, 0, 0⟩)

def total (reports : List RasterReport) : RasterReport where
  documents := (reports.map (·.documents)).sum
  pagesRendered := (reports.map (·.pagesRendered)).sum
  pagesDropped := (reports.map (·.pagesDropped)).sum

def onMessage (m : Message) : Except GatewayError (Message × RasterReport) :=
  match m.content with
  | some (.parts parts) =>
    if parts.any isFile then
      (parts.mapM (onPart R settings)).map fun found =>
        ({ m with content := some (.parts (found.flatMap Prod.fst)) },
          total (found.map Prod.snd))
    else .ok (m, ⟨0, 0, 0⟩)
  | some (.text _) | none => .ok (m, ⟨0, 0, 0⟩)

def rasterizeRequest (req : ChatRequest) : Except GatewayError (ChatRequest × RasterReport) :=
  (req.messages.mapM (onMessage R settings)).map fun found =>
    ({ req with messages := found.map Prod.fst }, total (found.map Prod.snd))

/-! ## What is sent of a document -/

def sizeOf (pages : List Bytes) : Nat := (pages.map List.length).sum

/-- The first pages of a document, as many as the two ceilings allow: with the next one
there would be too many, or they would be too large. A page that is too large by itself
is sent when it is the first. -/
structure Sent (data : Bytes) (pages : List Bytes) : Prop where
  some : pages ≠ []
  fits : pages.length = 1 ∨ sizeOf pages ≤ settings.maxTotalBytes
  few : pages.length ≤ settings.maxPages
  most : ∃ rest, R.pages settings.dpi data = .ok (pages.map .ok ++ rest) ∧
    (rest = [] ∨ pages.length = settings.maxPages ∨
      ∃ png more, rest = .ok png :: more ∧ settings.maxTotalBytes < sizeOf pages + png.length)

/-- What stands where a piece of a message was. -/
def Stands : Carrier → List Carrier → Prop
  | .document file, images => ∃ data pages, documentBytes R file = .ok data ∧
    Sent R settings data pages ∧ images = pages.map fun png => .image (pageImage R png)
  | c, found => found = [c]

/-- A message with its documents as images, and otherwise the same. -/
structure Redrawn (m m' : Message) : Prop where
  role : m'.role = m.role
  calls : m'.toolCalls = m.toolCalls
  callId : m'.toolCallId = m.toolCallId
  name : m'.name = m.name
  parts : ∃ pieces, List.Forall₂ (Stands R settings) m.parts pieces ∧ m'.parts = pieces.flatten

/-- The pages a document has. -/
def pagesIn : Carrier → Nat
  | .document file =>
    match documentBytes R file with
    | .ok data =>
      match R.pages settings.dpi data with
      | .ok pages => pages.length
      | .error _ => 0
    | .error _ => 0
  | _ => 0

/-- The pieces of a conversation. -/
def pieces (req : ChatRequest) : List Carrier := req.messages.flatMap Message.parts

/-- How the report adds up. -/
structure Reports (before after : List Carrier) (report : RasterReport) : Prop where
  documents : report.documents = before.countP Carrier.isDocument
  rendered : after.countP Carrier.isImage =
    before.countP Carrier.isImage + report.pagesRendered
  pages : report.pagesRendered + report.pagesDropped = (before.map (pagesIn R settings)).sum

/-! ## One document -/

theorem sizeOf_append (a b : List Bytes) : sizeOf (a ++ b) = sizeOf a + sizeOf b := by
  unfold sizeOf
  rw [List.map_append, List.sum_append]

variable {R settings}

/-- The loop stops at the end, or at a page that would be too much. -/
theorem collect_spec {pages : List (Except String Bytes)} :
    ∀ {bytes : Nat} {out found : List Bytes},
    bytes = sizeOf out → out.length ≤ 1 ∨ sizeOf out ≤ settings.maxTotalBytes →
    collect settings pages bytes out = .ok found →
    ∃ more rest, found = out ++ more ∧ pages = more.map .ok ++ rest ∧
      (found.length ≤ 1 ∨ sizeOf found ≤ settings.maxTotalBytes) ∧
      (rest = [] ∨ ∃ png next, rest = .ok png :: next ∧
        settings.maxTotalBytes < sizeOf found + png.length) := by
  induction pages with
  | nil =>
    intro bytes out found _ hfit h
    cases h
    exact ⟨[], [], (List.append_nil _).symm, rfl, hfit, .inl rfl⟩
  | cons page rest ih =>
    intro bytes out found hbytes hfit h
    cases page with
    | error e => cases h
    | ok png =>
      unfold collect at h
      split at h
      · next hstop =>
        cases h
        refine ⟨[], .ok png :: rest, (List.append_nil _).symm, rfl, hfit, .inr ⟨png, rest, rfl, ?_⟩⟩
        rw [← hbytes]
        exact hstop.1
      · next hgoes =>
        have hsize : sizeOf (out ++ [png]) = sizeOf out + png.length := sizeOf_append out [png]
        have hnext : (out ++ [png]).length ≤ 1 ∨
            sizeOf (out ++ [png]) ≤ settings.maxTotalBytes := by
          rw [hsize, ← hbytes]
          by_cases hout : out = []
          · left
            rw [hout]
            exact Nat.le_refl _
          · right
            exact Nat.le_of_not_lt fun hlt => hgoes ⟨hlt, hout⟩
        obtain ⟨more, last, hfound, hrest, hfits, hends⟩ :=
          ih (hsize.trans (congrArg (· + png.length) hbytes.symm)).symm hnext h
        refine ⟨png :: more, last, ?_, ?_, hfits, hends⟩
        · rw [hfound, List.append_assoc]
          rfl
        · rw [hrest]
          rfl

theorem sent_of_renderPdf {data : Bytes} {pages : List Bytes} {n : Nat}
    (h : renderPdf R settings data = .ok (pages, n)) :
    Sent R settings data pages ∧ pages.length ≤ n ∧
      ∃ all, R.pages settings.dpi data = .ok all ∧ all.length = n := by
  unfold renderPdf at h
  split at h
  · cases h
  · next all hall =>
    split at h
    · cases h
    · obtain ⟨out, hout, h⟩ := exists_of_bind h
      split at h
      · cases h
      · next hsome =>
        cases h
        obtain ⟨more, rest, hfound, htake, hfits, hends⟩ :=
          collect_spec (by rfl) (.inl (Nat.zero_le _)) hout
        rw [List.nil_append] at hfound
        subst hfound
        have hlength : pages.length ≤ (all.take settings.maxPages).length := by
          rw [htake, List.length_append, List.length_map]
          omega
        rw [List.length_take] at hlength
        have hsplit : all = pages.map Except.ok ++ (rest ++ all.drop settings.maxPages) := by
          rw [← List.append_assoc, ← htake, List.take_append_drop]
        refine ⟨⟨hsome, ?_, by omega, rest ++ all.drop settings.maxPages, ?_, ?_⟩, by omega, all,
          hall, rfl⟩
        · rcases hfits with hone | hfits
          · have hpos := List.length_pos_iff.mpr hsome
            exact .inl (by omega)
          · exact .inr hfits
        · rw [hall]
          exact congrArg Except.ok hsplit
        · rcases hends with rfl | ⟨png, next, rfl, hlarge⟩
          · -- every page that may be sent is
            have hsame := congrArg List.length htake
            rw [List.append_nil, List.length_map, List.length_take] at hsame
            by_cases hmore : settings.maxPages ≤ all.length
            · exact .inr (.inl (by omega))
            · left
              rw [List.nil_append, List.drop_eq_nil_of_le (by omega)]
          · exact .inr (.inr ⟨png, next ++ all.drop settings.maxPages, rfl, hlarge⟩)

/-! ## One message -/

theorem report_part {part : ContentPart} {found : List ContentPart × RasterReport}
    (h : onPart R settings part = .ok found) :
    Stands R settings part.carrier (found.1.map ContentPart.carrier) ∧
      Reports R settings [part.carrier] (found.1.map ContentPart.carrier) found.2 := by
  cases part with
  | file file =>
    unfold onPart at h
    obtain ⟨data, hdata, h⟩ := exists_of_bind h
    obtain ⟨⟨pages, n⟩, hpages, h⟩ := exists_of_bind h
    cases h
    obtain ⟨hsent, hle, all, hall, hlength⟩ := sent_of_renderPdf hpages
    have himages : (pages.map fun png => ContentPart.imageUrl (pageImage R png)).map
        ContentPart.carrier = pages.map fun png => .image (pageImage R png) := by
      rw [List.map_map]
      rfl
    dsimp only
    rw [himages]
    refine ⟨⟨data, pages, hdata, hsent, rfl⟩, rfl, ?_, ?_⟩
    · have hcount : (pages.map fun png => Carrier.image (pageImage R png)).countP Carrier.isImage =
          pages.length := by
        rw [List.countP_map]
        exact List.countP_eq_length.mpr fun _ _ => rfl
      rw [hcount]
      exact (Nat.zero_add _).symm
    · have hin : pagesIn R settings (ContentPart.file file).carrier = n := by
        dsimp only [ContentPart.carrier, pagesIn]
        rw [hdata]
        dsimp only
        rw [hall]
        exact hlength
      show pages.length + (n - pages.length) = pagesIn R settings _ + 0
      rw [hin]
      omega
  | text s | imageUrl image | inputAudio audio =>
    cases h
    exact ⟨rfl, rfl, rfl, rfl⟩

theorem reports_nil : Reports R settings [] [] (total []) := ⟨rfl, rfl, rfl⟩

theorem Reports.append {a b c d : List Carrier} {x y : RasterReport}
    (h : Reports R settings a b x) (h' : Reports R settings c d y) :
    Reports R settings (a ++ c) (b ++ d)
      ⟨x.documents + y.documents, x.pagesRendered + y.pagesRendered,
        x.pagesDropped + y.pagesDropped⟩ := by
  refine ⟨?_, ?_, ?_⟩
  · rw [List.countP_append, ← h.documents, ← h'.documents]
  · rw [List.countP_append, List.countP_append, h.rendered, h'.rendered]
    dsimp only
    omega
  · have hx := h.pages
    have hy := h'.pages
    rw [List.map_append, List.sum_append]
    dsimp only
    omega

theorem total_cons (x : RasterReport) (rest : List RasterReport) :
    total (x :: rest) = ⟨x.documents + (total rest).documents,
      x.pagesRendered + (total rest).pagesRendered,
      x.pagesDropped + (total rest).pagesDropped⟩ := rfl

/-- Nothing to be drawn. -/
theorem reports_same {cs : List Carrier} (h : ∀ c ∈ cs, c.isDocument = false) :
    Reports R settings cs cs ⟨0, 0, 0⟩ := by
  have hzero : ∀ c ∈ cs, pagesIn R settings c = 0 := by
    intro c hc
    have hno := h c hc
    cases c with
    | document file => cases hno
    | text | image | audio | call => rfl
  refine ⟨?_, rfl, ?_⟩
  · exact (List.countP_eq_zero.mpr fun c hc => by simp [h c hc]).symm
  · exact (List.sum_eq_zero fun n hn => by
      obtain ⟨c, hc, rfl⟩ := List.mem_map.mp hn
      exact hzero c hc).symm

theorem stands_same {cs : List Carrier} (h : ∀ c ∈ cs, c.isDocument = false) :
    List.Forall₂ (Stands R settings) cs (cs.map fun c => [c]) := by
  induction cs with
  | nil => exact .nil
  | cons c rest ih =>
    obtain ⟨hc, hrest⟩ := List.forall_mem_cons.mp h
    refine .cons ?_ (ih hrest)
    cases c with
    | document file => cases hc
    | text | image | audio | call => rfl

theorem parts_spec {parts : List ContentPart} {found : List (List ContentPart × RasterReport)}
    (h : List.Forall₂ (fun part found => onPart R settings part = .ok found) parts found) :
    List.Forall₂ (Stands R settings) (parts.map ContentPart.carrier)
        (found.map fun f => f.1.map ContentPart.carrier) ∧
      Reports R settings (parts.map ContentPart.carrier)
        ((found.flatMap Prod.fst).map ContentPart.carrier) (total (found.map Prod.snd)) := by
  induction h with
  | nil => exact ⟨.nil, reports_nil⟩
  | cons hpart _ ih =>
    obtain ⟨hstands, hreports⟩ := report_part hpart
    refine ⟨.cons hstands ih.1, ?_⟩
    rw [List.flatMap_cons, List.map_append, List.map_cons, List.map_cons, total_cons]
    exact hreports.append ih.2

theorem redrawn_self {m : Message} (h : ∀ c ∈ m.parts, c.isDocument = false) :
    Redrawn R settings m m := by
  refine ⟨rfl, rfl, rfl, rfl, _, stands_same h, ?_⟩
  rw [← List.flatMap_def, List.flatMap_singleton']

theorem onMessage_spec {m : Message} {found : Message × RasterReport}
    (h : onMessage R settings m = .ok found) :
    Redrawn R settings m found.1 ∧ Reports R settings m.parts found.1.parts found.2 := by
  have hself : (∀ c ∈ m.parts, c.isDocument = false) → found = (m, ⟨0, 0, 0⟩) →
      Redrawn R settings m found.1 ∧ Reports R settings m.parts found.1.parts found.2 := by
    rintro hnone rfl
    exact ⟨redrawn_self hnone, reports_same hnone⟩
  unfold onMessage at h
  split at h
  · next parts hcontent =>
    have hparts : m.parts = parts.map ContentPart.carrier := by
      unfold Message.parts
      rw [hcontent]
      rfl
    split at h
    · obtain ⟨each, heach, rfl⟩ := exists_of_map h
      obtain ⟨hstands, hreports⟩ := parts_spec (forall₂_of_mapM heach)
      rw [hparts]
      refine ⟨⟨rfl, rfl, rfl, rfl, _, hparts ▸ hstands, ?_⟩, hreports⟩
      show (each.flatMap Prod.fst).map ContentPart.carrier = _
      rw [List.map_flatMap, List.flatMap_def]
    · next hnone =>
      refine hself (fun c hc => ?_) (Except.ok.inj h).symm
      rw [hparts] at hc
      obtain ⟨part, hpart, rfl⟩ := List.mem_map.mp hc
      cases part with
      | file file => exact absurd (List.any_eq_true.mpr ⟨_, hpart, rfl⟩) hnone
      | text | imageUrl | inputAudio => rfl
  · next s hcontent =>
    refine hself (fun c hc => ?_) (Except.ok.inj h).symm
    unfold Message.parts at hc
    rw [hcontent] at hc
    have hc' : c ∈ if s = "" then [] else [Carrier.text s] := hc
    split at hc'
    · cases hc'
    · rw [List.mem_singleton.mp hc']
      rfl
  · next hcontent =>
    refine hself (fun c hc => ?_) (Except.ok.inj h).symm
    unfold Message.parts at hc
    rw [hcontent] at hc
    cases hc

/-! ## No document is left -/

/-- What stands where the pieces were is no document, and audio only where that was. -/
theorem kinds_of_stands {cs : List Carrier} {found : List (List Carrier)}
    (h : List.Forall₂ (Stands R settings) cs found) :
    (∀ c ∈ found.flatten, c.isDocument = false) ∧
      ((∀ c ∈ found.flatten, c.isAudio = false) ↔ ∀ c ∈ cs, c.isAudio = false) := by
  have hone : ∀ {c : Carrier} {images : List Carrier}, Stands R settings c images →
      (∀ x ∈ images, x.isDocument = false) ∧
        ((∀ x ∈ images, x.isAudio = false) ↔ c.isAudio = false) := by
    intro c images hstands
    cases c with
    | document file =>
      obtain ⟨data, pages, _, _, rfl⟩ := hstands
      have hkind : ∀ x ∈ pages.map fun png => Carrier.image (pageImage R png),
          x.isDocument = false ∧ x.isAudio = false := by
        intro x hx
        obtain ⟨png, _, rfl⟩ := List.mem_map.mp hx
        exact ⟨rfl, rfl⟩
      exact ⟨fun x hx => (hkind x hx).1, iff_of_true (fun x hx => (hkind x hx).2) rfl⟩
    | text | image | audio | call =>
      cases hstands
      exact ⟨List.forall_mem_singleton.mpr rfl, List.forall_mem_singleton⟩
  induction h with
  | nil => exact ⟨fun c hc => (by cases hc), iff_of_true (fun c hc => by cases hc)
      fun c hc => by cases hc⟩
  | cons hstands _ ih =>
    obtain ⟨hdocument, haudio⟩ := hone hstands
    rw [List.flatten_cons, List.forall_mem_append, List.forall_mem_append, List.forall_mem_cons,
      haudio, ih.2]
    exact ⟨⟨hdocument, ih.1⟩, Iff.rfl⟩

/-- A part is a text, an image, an audio or a document. -/
theorem kind_of_part {m : Message} {c : Carrier} (h : c ∈ m.parts) :
    c.isText = true ∨ c.isImage = true ∨ c.isAudio = true ∨ c.isDocument = true := by
  obtain ⟨content, _, hc⟩ : ∃ content, m.content = some content ∧ c ∈ content.carriers := by
    unfold Message.parts at h
    cases hcontent : m.content with
    | none =>
      rw [hcontent] at h
      cases h
    | some content =>
      rw [hcontent] at h
      exact ⟨content, rfl, h⟩
  cases content with
  | text s =>
    have hc' : c ∈ if s = "" then [] else [Carrier.text s] := hc
    split at hc'
    · cases hc'
    · rw [List.mem_singleton.mp hc']
      exact .inl rfl
  | parts ps =>
    obtain ⟨part, _, rfl⟩ := List.mem_map.mp hc
    cases part with
    | text => exact .inl rfl
    | imageUrl => exact .inr (.inl rfl)
    | inputAudio => exact .inr (.inr (.inl rfl))
    | file => exact .inr (.inr (.inr rfl))

/-- What Codex can be sent of a message that has no documents, or none any more. -/
def Sendable (m : Message) : Prop :=
  (∀ c ∈ m.parts, c.isAudio = false) ∧ (isSystem m ∨ m.role = "tool" → m.calls = [])

theorem lost_iff {m : Message} (h : ∀ c ∈ m.parts, c.isDocument = false) :
    lost m = [] ↔ Sendable m := by
  have hcalls : ∀ p : Carrier → Bool, (∀ call, p (.call call) = true) →
      ((m.calls.map Carrier.call).filter p = [] ↔ m.calls = []) := by
    intro p hp
    rw [List.filter_eq_self.mpr fun c hc => ?_, List.map_eq_nil_iff]
    obtain ⟨call, _, rfl⟩ := List.mem_map.mp hc
    exact hp call
  unfold lost Sendable
  by_cases hrole : isSystem m ∨ m.role = "tool"
  · rw [if_pos hrole]
    unfold CodexInput.othersOf
    rw [List.filter_append, List.append_eq_nil_iff, hcalls _ fun _ => rfl, List.filter_filter,
      List.filter_eq_nil_iff]
    refine and_congr ⟨fun hall c hc => ?_, fun hall c hc hother => ?_⟩
      ⟨fun hnone _ => hnone, fun himp => himp hrole⟩
    · by_contra haudio
      refine hall c hc ?_
      cases c with
      | audio v => rfl
      | text | image | document | call => exact absurd rfl haudio
    · have haudio := hall c hc
      have hdocument := h c hc
      rcases kind_of_part hc with hk | hk | hk | hk <;>
        cases c <;> simp_all [Carrier.isText, Carrier.isImage, Carrier.isAudio, Carrier.isDocument]
  · rw [if_neg hrole]
    have hrest : (isSystem m ∨ m.role = "tool" → m.calls = []) ↔ True :=
      iff_true_intro fun himp => absurd himp hrole
    rw [hrest, and_true]
    unfold Message.carriers
    rw [List.filter_append, List.append_eq_nil_iff, List.filter_eq_nil_iff]
    have hnone : (m.calls.map Carrier.call).filter (fun c => c.isAudio || c.isDocument) = [] := by
      rw [List.filter_eq_nil_iff]
      intro c hc
      obtain ⟨call, _, rfl⟩ := List.mem_map.mp hc
      simp [Carrier.isAudio, Carrier.isDocument]
    rw [and_iff_left hnone]
    refine forall₂_congr fun c hc => ?_
    rw [h c hc, Bool.or_false, Bool.not_eq_true]

theorem Redrawn.noDocument {m m' : Message} (h : Redrawn R settings m m') :
    ∀ c ∈ m'.parts, c.isDocument = false := by
  obtain ⟨found, hstands, hparts⟩ := h.parts
  rw [hparts]
  exact (kinds_of_stands hstands).1

theorem Redrawn.sendable {m m' : Message} (h : Redrawn R settings m m') :
    Sendable m' ↔ Sendable m := by
  obtain ⟨found, hstands, hparts⟩ := h.parts
  unfold Sendable isSystem Message.calls
  rw [h.role, h.calls, hparts, (kinds_of_stands hstands).2]

theorem hasDocuments_false {req : ChatRequest}
    (h : ∀ m ∈ req.messages, ∀ c ∈ m.parts, c.isDocument = false) : hasDocuments req = false := by
  unfold hasDocuments
  rw [List.any_eq_false]
  intro m hm
  have hnone := h m hm
  split
  · next parts hcontent =>
    rw [Bool.not_eq_true, List.any_eq_false]
    intro part hpart
    have hmem : part.carrier ∈ m.parts := by
      unfold Message.parts
      rw [hcontent]
      exact List.mem_map_of_mem hpart
    have hkind := hnone _ hmem
    cases part with
    | file file => cases hkind
    | text | imageUrl | inputAudio => exact Bool.false_ne_true
  · exact Bool.false_ne_true
  · exact Bool.false_ne_true

theorem messages_spec {messages : List Message} {found : List (Message × RasterReport)}
    (h : List.Forall₂ (fun m found => onMessage R settings m = .ok found) messages found) :
    List.Forall₂ (Redrawn R settings) messages (found.map Prod.fst) ∧
      Reports R settings (messages.flatMap Message.parts)
        ((found.map Prod.fst).flatMap Message.parts) (total (found.map Prod.snd)) := by
  induction h with
  | nil => exact ⟨.nil, reports_nil⟩
  | cons hm _ ih =>
    obtain ⟨hredrawn, hreports⟩ := onMessage_spec hm
    refine ⟨.cons hredrawn ih.1, ?_⟩
    rw [List.flatMap_cons, List.map_cons, List.flatMap_cons, List.map_cons, total_cons]
    exact hreports.append ih.2

theorem redrawn_all {messages out : List Message}
    (h : List.Forall₂ (Redrawn R settings) messages out) :
    (∀ m ∈ out, ∀ c ∈ m.parts, c.isDocument = false) ∧
      ((∀ m ∈ out, lost m = []) ↔ ∀ m ∈ messages, Sendable m) := by
  induction h with
  | nil => exact ⟨fun m hm => (by cases hm), iff_of_true (fun m hm => by cases hm)
      fun m hm => by cases hm⟩
  | cons hredrawn _ ih =>
    rw [List.forall_mem_cons, List.forall_mem_cons, List.forall_mem_cons, ih.2,
      lost_iff hredrawn.noDocument, hredrawn.sendable]
    exact ⟨⟨hredrawn.noDocument, ih.1⟩, Iff.rfl⟩

/-- **A request with its documents as images.** Every message is as it was, but that the
first pages of each document stand where the document was, as many as fit; the report
counts them. So Codex does not refuse what is left, and has all of it, unless there is an
audio part, or a message of the system or a tool has calls. -/
theorem documents_rendered {req out : ChatRequest} {report : RasterReport}
    (h : rasterizeRequest R settings req = .ok (out, report)) :
    List.Forall₂ (Redrawn R settings) req.messages out.messages ∧
      out = { req with messages := out.messages } ∧
      Reports R settings (pieces req) (pieces out) report ∧ hasDocuments out = false ∧
      ∃ found, splitSystemAndInput out.messages = .ok found ∧
        (Carried out.messages found ↔ ∀ m ∈ req.messages, Sendable m) := by
  obtain ⟨each, heach, hpair⟩ := exists_of_map h
  cases hpair
  obtain ⟨hredrawn, hreports⟩ := messages_spec (forall₂_of_mapM heach)
  obtain ⟨hnone, hlost⟩ := redrawn_all hredrawn
  refine ⟨hredrawn, rfl, hreports, hasDocuments_false hnone, ?_⟩
  have haccepted : ∀ m ∈ each.map Prod.fst, ¬ CodexInput.Refused m := by
    rintro m hm ⟨_, _, c, hc, hdocument⟩
    rw [hnone m hm c hc] at hdocument
    cases hdocument
  obtain ⟨found, hfound⟩ : ∃ found, splitSystemAndInput (each.map Prod.fst) = .ok found := by
    obtain ⟨split, _, hsplit⟩ := CodexInput.splitMessages_spec haccepted
    unfold splitSystemAndInput
    rw [hsplit]
    exact ⟨_, rfl⟩
  have hthis : Carried (each.map Prod.fst) found ↔
      ∀ out, splitSystemAndInput (each.map Prod.fst) = .ok out →
        Carried (each.map Prod.fst) out := by
    refine ⟨fun hcarried out hout => ?_, fun hcarried => hcarried found hfound⟩
    rw [hfound] at hout
    cases hout
    exact hcarried
  refine ⟨found, hfound, ?_⟩
  show Carried (each.map Prod.fst) found ↔ _
  rw [hthis, CodexInput.split_iff, or_iff_right fun hrefused => ?_, hlost]
  obtain ⟨m, hm, hrefused⟩ := hrefused
  exact haccepted m hm hrefused

end

/-! ## An instance -/

/-- Two pages, the second one larger than what is allowed. -/
def twoPages : Renderer where
  decode := fun _ => some []
  encode := fun _ => "AA=="
  pages := fun _ _ => .ok [.ok [1], .ok [2, 3]]

def small : RasterSettings where
  maxTotalBytes := 2

def attached : Value :=
  .ofMembers [("file_data", .string "data:application/pdf;base64,AA==")]

theorem no_extra_sorted : Entries.Sorted ([] : List (String × Value)) := List.Pairwise.nil

theorem no_extra : ∀ member ∈ ([] : List (String × Value)), member.1 ∉ ChatRequest.fields := by
  intro member hmember
  exact absurd hmember List.not_mem_nil

def withFile (content : Content) : ChatRequest where
  model := "m"
  messages := [⟨"user", some content, none, none, none⟩]
  tools := none
  toolChoice := none
  parallelToolCalls := none
  temperature := none
  topP := none
  maxTokens := none
  maxCompletionTokens := none
  stop := none
  n := none
  stream := none
  streamOptions := none
  responseFormat := none
  logprobs := none
  presencePenalty := none
  frequencyPenalty := none
  seed := none
  user := none
  extra := []
  extra_sorted := no_extra_sorted
  extra_foreign := no_extra

theorem documents_rendered_attached :
    ∃ out report, rasterizeRequest twoPages small
        (withFile (.parts [.text "read this", .file attached])) = .ok (out, report) ∧
      report.pagesRendered + report.pagesDropped = 2 ∧ hasDocuments out = false ∧
      ∃ found, splitSystemAndInput out.messages = .ok found ∧ Carried out.messages found := by
  have hrun : rasterizeRequest twoPages small
      (withFile (.parts [.text "read this", .file attached])) =
      .ok (withFile (.parts [.text "read this", .imageUrl (pageImage twoPages [1])]), ⟨1, 1, 1⟩) :=
    rfl
  obtain ⟨_, _, hreports, hnone, found, hfound, hcarried⟩ := documents_rendered hrun
  refine ⟨_, _, hrun, hreports.pages, hnone, found, hfound, hcarried.mpr fun m hm => ?_⟩
  rw [List.mem_singleton.mp hm]
  refine ⟨fun c hc => ?_, fun _ => rfl⟩
  rcases List.mem_pair.mp hc with rfl | rfl <;> rfl

end RapidRouter.Providers.Documents
