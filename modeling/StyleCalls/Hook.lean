import StyleCalls.Color.Delta

/-! Subscribers to color adjustment. A color and its offsets are lent to all of them in turn, by
reference, in one payload that goes from each subscriber to the next as it leaves it. Subscribers
may keep something in mind from one call to the next. -/

namespace StyleCalls
variable {σ α : Type}

/-- Before the adjustment the color and its offsets may be written, after it only the color. -/
inductive Hook where
  | before
  | after
deriving DecidableEq

/-- Where a reference leads: to what is lent, or to something a subscriber brought along. -/
inductive Referent (α : Type) where
  | lent
  | own (value : α)
deriving DecidableEq

theorem Referent.own_ne_lent (value : α) : Referent.own value ≠ .lent := by simp

def Referent.read (lent : α) : Referent α → α
  | .lent => lent
  | .own value => value

/-- The payload of a hook: its variant and where its two references lead, with the color and the
offsets that are lent. Only these are there for the one who raised the hook when all is done. -/
structure Payload where
  hook : Hook
  color : Text
  deltas : Deltas
  colorAt : Referent Text := .lent
  deltasAt : Referent Deltas := .lent
deriving DecidableEq

namespace Payload

def raise (hook : Hook) (color : Text) (d : Deltas) : Payload := { hook, color, deltas := d }

/-! What the payload shows -/

def seenColor (q : Payload) : Text := q.colorAt.read q.color

def seenDeltas (q : Payload) : Deltas := q.deltasAt.read q.deltas

/-! Writing through the references -/

def writeColor (q : Payload) (color : Text) : Payload :=
  match q.colorAt with
  | .lent => { q with color }
  | .own _ => { q with colorAt := .own color }

def writeDeltas (q : Payload) (d : Deltas) : Payload :=
  match q.deltasAt with
  | .lent => { q with deltas := d }
  | .own _ => { q with deltasAt := .own d }

/-- There is no way left to write the offsets that are lent. -/
def ReadOnly (q : Payload) : Prop := q.hook = .after ∨ q.deltasAt ≠ .lent

/-- What can be made of a payload by those who have nothing else to get at what is lent. They may
replace the references and the variant, but a reference that is given up, or made read-only, cannot
be got back. -/
structure Reaches (q q' : Payload) : Prop where
  color : q.colorAt ≠ .lent → q'.color = q.color ∧ q'.colorAt ≠ .lent
  deltas : q.deltasAt ≠ .lent → q'.deltasAt ≠ .lent
  readOnly : q.ReadOnly → q'.deltas = q.deltas ∧ q'.ReadOnly

namespace Reaches
variable {q q' q'' : Payload}

theorem refl (q : Payload) : q.Reaches q := ⟨fun h => ⟨rfl, h⟩, id, fun h => ⟨rfl, h⟩⟩

theorem trans (h : q.Reaches q') (h' : q'.Reaches q'') : q.Reaches q'' where
  color hcolor := by
    obtain ⟨heq, hcolor⟩ := h.color hcolor
    obtain ⟨heq', hcolor⟩ := h'.color hcolor
    exact ⟨heq'.trans heq, hcolor⟩
  deltas hdeltas := h'.deltas (h.deltas hdeltas)
  readOnly hreadOnly := by
    obtain ⟨heq, hreadOnly⟩ := h.readOnly hreadOnly
    obtain ⟨heq', hreadOnly⟩ := h'.readOnly hreadOnly
    exact ⟨heq'.trans heq, hreadOnly⟩

theorem writeColor (q : Payload) (color : Text) : q.Reaches (q.writeColor color) := by
  rw [Payload.writeColor]
  split
  next hlent => exact ⟨fun h => absurd hlent h, id, fun h => ⟨rfl, h⟩⟩
  next => exact ⟨fun _ => ⟨rfl, Referent.own_ne_lent color⟩, id, fun h => ⟨rfl, h⟩⟩

theorem writeDeltas (hhook : q.hook = .before) (d : Deltas) : q.Reaches (q.writeDeltas d) := by
  rw [Payload.writeDeltas]
  split
  next hlent =>
    have hwritable : ¬q.ReadOnly := by simp [ReadOnly, hhook, hlent]
    exact ⟨fun h => ⟨rfl, h⟩, id, fun h => absurd h hwritable⟩
  next =>
    have hown := Referent.own_ne_lent d
    exact ⟨fun h => ⟨rfl, h⟩, fun _ => hown, fun _ => ⟨rfl, .inr hown⟩⟩

end Reaches
end Payload

/-- What a subscriber does when its hook is raised. -/
structure Handler (σ : Type) where
  run : Payload → σ → Payload × σ
  reaches : ∀ (q : Payload) memory, q.Reaches (run q memory).1

namespace Handler

/-- Rewrites the color and its offsets before the adjustment, and leaves any other payload alone. -/
def rewriting (f : Text × Deltas → σ → (Text × Deltas) × σ) : Handler σ where
  run q memory := match q.hook with
    | .before =>
      let (p, memory) := f (q.seenColor, q.seenDeltas) memory
      ((q.writeDeltas p.2).writeColor p.1, memory)
    | .after => (q, memory)
  reaches q memory := by
    split
    next hbefore => exact (Payload.Reaches.writeDeltas hbefore _).trans (.writeColor _ _)
    next => exact .refl q

/-- Rewrites the result of the adjustment, and leaves any other payload alone. -/
def finishing (f : Deltas → Text → σ → Text × σ) : Handler σ where
  run q memory := match q.hook with
    | .before => (q, memory)
    | .after =>
      let (color, memory) := f q.seenDeltas q.seenColor memory
      (q.writeColor color, memory)
  reaches q memory := by
    split
    next => exact .refl q
    next => exact .writeColor _ _

/-- Each handler takes over the payload as the one before it leaves it. -/
def passOn (handlers : List (Handler σ)) (p : Payload × σ) : Payload × σ :=
  handlers.foldl (fun p handler => handler.run p.1 p.2) p

theorem reaches_passOn (handlers : List (Handler σ)) (p : Payload × σ) :
    p.1.Reaches (passOn handlers p).1 := by
  induction handlers generalizing p with
  | nil => exact .refl p.1
  | cons handler handlers ih => exact (handler.reaches p.1 p.2).trans (ih _)

end Handler

structure Subscriber (σ : Type) where
  hook : Hook
  handler : Handler σ

namespace Subscriber

def before (f : Text × Deltas → σ → (Text × Deltas) × σ) : Subscriber σ := ⟨.before, .rewriting f⟩

def after (f : Deltas → Text → σ → Text × σ) : Subscriber σ := ⟨.after, .finishing f⟩

end Subscriber

/-- The handlers of either hook, in the order in which they came. -/
structure Hooks (σ : Type) where
  before : List (Handler σ) := []
  after : List (Handler σ) := []

namespace Hooks

def handlers (hooks : Hooks σ) : Hook → List (Handler σ)
  | .before => hooks.before
  | .after => hooks.after

def subscribe (hooks : Hooks σ) (sub : Subscriber σ) : Hooks σ :=
  match sub.hook with
  | .before => { hooks with before := hooks.before ++ [sub.handler] }
  | .after => { hooks with after := hooks.after ++ [sub.handler] }

/-- The handlers are those of the variant that the payload has at first. -/
def emit (hooks : Hooks σ) (q : Payload) (memory : σ) : Payload × σ :=
  Handler.passOn (hooks.handlers q.hook) (q, memory)

/-- What becomes of a color and offsets that are lent to the subscribers. -/
def runBefore (hooks : Hooks σ) (color : Text) (d : Deltas) (memory : σ) : (Text × Deltas) × σ :=
  let (q, memory) := hooks.emit (.raise .before color d) memory
  ((q.color, q.deltas), memory)

def runAfter (hooks : Hooks σ) (d : Deltas) (color : Text) (memory : σ) : Text × σ :=
  let (q, memory) := hooks.emit (.raise .after color d) memory
  (q.color, memory)

def beforeName : Text := "color_adjust_before".toList

def afterName : Text := "color_adjust_after".toList

/-- How many subscribers there are. -/
def summary (hooks : Hooks σ) : Text :=
  "\x7b\"".toList ++ beforeName ++ "\": ".toList ++ Nat.toDigits 10 hooks.before.length ++
    ", \"".toList ++ afterName ++ "\": ".toList ++ Nat.toDigits 10 hooks.after.length ++ ['\x7d']

end Hooks
end StyleCalls
