import Mathlib.Data.Finset.Card
import Semprec.Lib.Runs

/-!
# Which sockets are subscribed to a document

The bookkeeping of `doc:open` and `doc:close`.  An open reserves a slot of its socket, looks its
document up, and subscribes if the document is there; the other frames of the socket and its close
come in between, and the lookups finish in any order.
-/

namespace Semprec

namespace DocSubscriptions

def MAX_OPEN_DOCS_PER_CONNECTION : ℕ := 32

inductive ReadyState where
  | OPEN
  | CLOSING
  | CLOSED
deriving DecidableEq

/-- What has become of a frame; `closed` is that of a `doc:close`. -/
inductive Fate where
  | refused
  | pending
  | visible
  | invisible
  | threw
  | closed
deriving DecidableEq

structure Frame where
  ws : ℕ
  docId : String
  fate : Fate
deriving DecidableEq

structure Sys where
  /-- Keyed by tenant and document; a key without sockets is not in the map. -/
  subscribersByDoc : String × String → Finset ℕ
  openDocsByClient : ℕ → Finset String
  tenantByClient : ℕ → Option String
  readyState : ℕ → ReadyState
  frames : ℕ → Option Frame
  nextFrame : ℕ
  /-- The socket's latest frame for a document. -/
  latest : ℕ → String → Option ℕ

def Sys.init : Sys where
  subscribersByDoc := fun _ => ∅
  openDocsByClient := fun _ => ∅
  tenantByClient := fun _ => none
  readyState := fun _ => .OPEN
  frames := fun _ => none
  nextFrame := 0
  latest := fun _ _ => none

namespace Sys

def addOpenDoc (s : Sys) (ws : ℕ) (docId : String) : Sys :=
  { s with
    openDocsByClient := Function.update s.openDocsByClient ws
      (insert docId (s.openDocsByClient ws)) }

def deleteOpenDoc (s : Sys) (ws : ℕ) (docId : String) : Sys :=
  { s with
    openDocsByClient := Function.update s.openDocsByClient ws
      ((s.openDocsByClient ws).erase docId) }

def subscribe (s : Sys) (ws : ℕ) (tenantId docId : String) : Sys :=
  { s with
    subscribersByDoc := Function.update s.subscribersByDoc (tenantId, docId)
      (insert ws (s.subscribersByDoc (tenantId, docId))) }.addOpenDoc ws docId

def unsubscribe (s : Sys) (ws : ℕ) (docId : String) : Sys :=
  match s.tenantByClient ws with
  | none => s.deleteOpenDoc ws docId
  | some tenantId =>
    { s with
      subscribersByDoc := Function.update s.subscribersByDoc (tenantId, docId)
        ((s.subscribersByDoc (tenantId, docId)).erase ws) }.deleteOpenDoc ws docId

/-- `none` when the cap is hit. -/
def reserveOpenSlot (s : Sys) (ws : ℕ) (docId : String) : Option Sys :=
  if docId ∈ s.openDocsByClient ws then some s
  else if MAX_OPEN_DOCS_PER_CONNECTION ≤ (s.openDocsByClient ws).card then none
  else some (s.addOpenDoc ws docId)

/-- Notes a frame as the latest of its socket for its document. -/
def note (s : Sys) (ws : ℕ) (docId : String) (fate : Fate) : Sys :=
  { s with
    frames := Function.update s.frames s.nextFrame (some ⟨ws, docId, fate⟩)
    nextFrame := s.nextFrame + 1
    latest := Function.update s.latest ws (Function.update (s.latest ws) docId (some s.nextFrame)) }

/-- The lookup of an open is over. -/
def settle (s : Sys) (n : ℕ) (frame : Frame) (fate : Fate) : Sys :=
  { s with frames := Function.update s.frames n (some { frame with fate := fate }) }

def handleOpen (s : Sys) (ws : ℕ) (docId : String) : Sys :=
  match s.reserveOpenSlot ws docId with
  | none => s.note ws docId .refused
  | some s' => s'.note ws docId .pending

/-- `handleOpen` after its lookup; what follows `subscribe` there is the handshake. -/
def resumeOpen (s : Sys) (n : ℕ) (frame : Frame) (tenantId : String) (visible : Bool) : Sys :=
  let s' := s.settle n frame (if visible then .visible else .invisible)
  if visible = false then s'.deleteOpenDoc frame.ws frame.docId
  else if s.readyState frame.ws ≠ .OPEN then s'.deleteOpenDoc frame.ws frame.docId
  else
    { s' with tenantByClient := Function.update s.tenantByClient frame.ws (some tenantId) }.subscribe
      frame.ws tenantId frame.docId

def handleClose (s : Sys) (ws : ℕ) (docId : String) : Sys :=
  (s.unsubscribe ws docId).note ws docId .closed

def handleSocketClosed (s : Sys) (ws : ℕ) : Sys :=
  { s with
    subscribersByDoc := fun key =>
      if s.tenantByClient ws = some key.1 ∧ key.2 ∈ s.openDocsByClient ws then
        (s.subscribersByDoc key).erase ws
      else s.subscribersByDoc key
    openDocsByClient := Function.update s.openDocsByClient ws ∅ }

end Sys

inductive Lookup where
  | found
  | notFound
  | threw
deriving DecidableEq

inductive Act where
  | docOpen (ws : ℕ) (docId : String)
  | docClose (ws : ℕ) (docId : String)
  | lookup (n : ℕ) (result : Lookup)
  /-- The socket is on its way to its close event, and frames may still come. -/
  | closing (ws : ℕ)
  | socketClosed (ws : ℕ)
deriving DecidableEq

variable (tenant : ℕ → String)

def step (s : Sys) : Act → Option Sys
  | .docOpen ws docId =>
    if s.readyState ws = .CLOSED then none else some (s.handleOpen ws docId)
  | .docClose ws docId =>
    if s.readyState ws = .CLOSED then none else some (s.handleClose ws docId)
  | .lookup n result =>
    (s.frames n).bind fun frame =>
      if frame.fate ≠ .pending then none
      else match result with
        | .found => some (s.resumeOpen n frame (tenant frame.ws) true)
        | .notFound => some (s.resumeOpen n frame (tenant frame.ws) false)
        | .threw => some (s.settle n frame .threw)
  | .closing ws =>
    if s.readyState ws = .OPEN then
      some { s with readyState := Function.update s.readyState ws .CLOSING }
    else none
  | .socketClosed ws =>
    if s.readyState ws = .CLOSED then none
    else some { s.handleSocketClosed ws with
      readyState := Function.update s.readyState ws .CLOSED }

/-! ## What the books are to say -/

/-- All handlers have finished. -/
def Quiet (s : Sys) : Prop := ∀ n, ∀ frame ∈ s.frames n, frame.fate ≠ .pending

def Subscribed (s : Sys) (ws : ℕ) (docId : String) : Prop :=
  ws ∈ s.subscribersByDoc (tenant ws, docId)

instance (s : Sys) (ws : ℕ) (docId : String) : Decidable (Subscribed tenant s ws docId) :=
  inferInstanceAs (Decidable (_ ∈ _))

def latestFate (s : Sys) (ws : ℕ) (docId : String) : Option Fate :=
  ((s.latest ws docId).bind s.frames).map Frame.fate

structure Exact (s : Sys) : Prop where
  cap : ∀ ws, (s.openDocsByClient ws).card ≤ MAX_OPEN_DOCS_PER_CONNECTION
  /-- A slot is held for a subscription and for nothing else. -/
  slots : ∀ ws docId, docId ∈ s.openDocsByClient ws ↔ Subscribed tenant s ws docId
  latest : ∀ ws, s.readyState ws = .OPEN → ∀ docId,
    Subscribed tenant s ws docId ↔ latestFate s ws docId = some .visible
  own : ∀ ws key, ws ∈ s.subscribersByDoc key → key.1 = tenant ws
  gone : ∀ ws, s.readyState ws = .CLOSED → ∀ key, ws ∉ s.subscribersByDoc key

/-- A lookup that finds its document on an open socket comes while the latest frame for it is an open
that may be found too, and its slot is still reserved or another is free.  One that gives its slot
back comes while the socket is not subscribed, and none throws before the socket's close event. -/
def InOrder (s : Sys) : Act → Prop
  | .lookup n result => ∀ frame ∈ s.frames n,
    if result = .threw then s.readyState frame.ws = .CLOSED
    else if result = .found ∧ s.readyState frame.ws = .OPEN then
      (latestFate s frame.ws frame.docId = some .pending ∨
        latestFate s frame.ws frame.docId = some .visible) ∧
      (frame.docId ∈ s.openDocsByClient frame.ws ∨
        (s.openDocsByClient frame.ws).card < MAX_OPEN_DOCS_PER_CONNECTION)
    else ¬ Subscribed tenant s frame.ws frame.docId
  | _ => True

instance (s : Sys) (act : Act) : Decidable (InOrder tenant s act) := by
  cases act <;> unfold InOrder <;> infer_instance

end DocSubscriptions

end Semprec
