import Mathlib

/-!
# Computations that may be cut off

A `Script` works on a state in statements.  Besides its result and the last state
it says which states it went through, so that a crash can be placed between any
two statements.

`Steps R p s Q` is what is proved about a script: every state it goes through is
reached from `s` by moves of `R`, and a result satisfies `Q`.  A property that
every move keeps therefore holds wherever the script is cut off.
-/

namespace Interrupt

open Relation

structure Outcome (σ ε α : Type) where
  result : Except ε α
  last : σ
  /-- The states before each of the statements that were carried out. -/
  passed : List σ

def Script (σ ε α : Type) := σ → Outcome σ ε α

variable {σ ε α β : Type}

namespace Outcome

/-- Wherever a crash may find the state. -/
def states (self : Outcome σ ε α) : List σ := self.passed ++ [self.last]

end Outcome

namespace Script

instance : Monad (Script σ ε) where
  pure a := fun s => ⟨.ok a, s, []⟩
  bind p f := fun s =>
    match (p s).result with
    | .error e => ⟨.error e, (p s).last, (p s).passed⟩
    | .ok a =>
        let rest := f a (p s).last
        ⟨rest.result, rest.last, (p s).passed ++ rest.passed⟩

def get : Script σ ε σ := fun s => ⟨.ok s, s, []⟩

/-- One statement, which may fail and may change the state also then. -/
def act (f : σ → Except ε α × σ) : Script σ ε α := fun s => ⟨(f s).1, (f s).2, [s]⟩

def modify (f : σ → σ) : Script σ ε Unit := act fun s => (.ok (), f s)

/-- A check on the state. -/
def check (f : σ → Except ε α) : Script σ ε α := fun s => ⟨f s, s, []⟩

theorem last_bind (p : Script σ ε α) (f : α → Script σ ε β) (s : σ) :
    ((p >>= f) s).last = match (p s).result with
      | .error _ => (p s).last
      | .ok a => (f a (p s).last).last := by
  show (match (p s).result with
    | .error e => (⟨.error e, (p s).last, (p s).passed⟩ : Outcome σ ε β)
    | .ok a => ⟨(f a (p s).last).result, (f a (p s).last).last,
        (p s).passed ++ (f a (p s).last).passed⟩).last = _
  rcases (p s).result with e | a
  · rfl
  · rfl

theorem last_bind_ok {p : Script σ ε α} {f : α → Script σ ε β} {s : σ} {a : α}
    (h : (p s).result = .ok a) : ((p >>= f) s).last = (f a (p s).last).last := by
  rw [last_bind, h]

/-- What is done after it leaves the state. -/
theorem last_bind_of_forall {p : Script σ ε α} {f : α → Script σ ε β} {s : σ}
    {γ : Type} {g : σ → γ} (h : ∀ a, g (f a (p s).last).last = g (p s).last) :
    g ((p >>= f) s).last = g (p s).last := by
  rw [last_bind]
  rcases (p s).result with e | a
  · rfl
  · exact h a

end Script

/-! ## What a script goes through -/

structure Steps (R : σ → σ → Prop) (p : Script σ ε α) (s : σ) (Q : α → σ → Prop) : Prop where
  passed : ∀ t ∈ (p s).passed, ReflTransGen R s t
  last : ReflTransGen R s (p s).last
  post : ∀ a, (p s).result = .ok a → Q a (p s).last

namespace Steps

variable {R : σ → σ → Prop} {s : σ}

theorem states {p : Script σ ε α} {Q : α → σ → Prop} (h : Steps R p s Q) :
    ∀ t ∈ (p s).states, ReflTransGen R s t := by
  intro t ht
  rcases List.mem_append.mp ht with hpassed | hlast
  · exact h.passed t hpassed
  · rw [List.mem_singleton.mp hlast]
    exact h.last

theorem pure {a : α} {Q : α → σ → Prop} (h : Q a s) : Steps R (pure a : Script σ ε α) s Q where
  passed := by
    intro t ht
    cases ht
  last := .refl
  post := by
    rintro _ ⟨⟩
    exact h

theorem check {f : σ → Except ε α} {Q : α → σ → Prop} (h : ∀ a, f s = .ok a → Q a s) :
    Steps R (Script.check f) s Q where
  passed := by
    intro t ht
    cases ht
  last := .refl
  post := h

theorem act {f : σ → Except ε α × σ} {Q : α → σ → Prop} (hmove : ReflTransGen R s (f s).2)
    (h : ∀ a, (f s).1 = .ok a → Q a (f s).2) : Steps R (Script.act f) s Q where
  passed := by
    intro t ht
    rw [List.mem_singleton.mp ht]
  last := hmove
  post := h

theorem modify {f : σ → σ} {Q : Unit → σ → Prop} (hmove : ReflTransGen R s (f s))
    (h : Q () (f s)) : Steps R (Script.modify f : Script σ ε Unit) s Q :=
  act hmove fun _ _ => h

/-- One after the other: the second one starts where the first one ended. -/
theorem bind {p : Script σ ε α} {f : α → Script σ ε β} {P : α → σ → Prop} {Q : β → σ → Prop}
    (hp : Steps R p s P)
    (hf : ∀ a, (p s).result = .ok a → P a (p s).last → Steps R (f a) (p s).last Q) :
    Steps R (p >>= f) s Q := by
  have hrun : (p >>= f) s = match (p s).result with
      | .error e => ⟨.error e, (p s).last, (p s).passed⟩
      | .ok a =>
          let rest := f a (p s).last
          ⟨rest.result, rest.last, (p s).passed ++ rest.passed⟩ := rfl
  rcases hresult : (p s).result with e | a
  · rw [hresult] at hrun
    refine ⟨?_, ?_, ?_⟩
    · rw [hrun]
      exact hp.passed
    · rw [hrun]
      exact hp.last
    · intro b hb
      rw [hrun] at hb
      cases hb
  · rw [hresult] at hrun
    have hrest := hf a hresult (hp.post a hresult)
    refine ⟨?_, ?_, ?_⟩
    · rw [hrun]
      intro t ht
      rcases List.mem_append.mp ht with hleft | hright
      · exact hp.passed t hleft
      · exact hp.last.trans (hrest.passed t hright)
    · rw [hrun]
      exact hp.last.trans hrest.last
    · intro b hb
      rw [hrun] at hb ⊢
      exact hrest.post b hb

theorem get_bind {f : σ → Script σ ε β} {Q : β → σ → Prop} (h : Steps R (f s) s Q) :
    Steps R (Script.get >>= f) s Q :=
  bind (P := fun _ _ => True) (check (f := .ok) fun _ _ => trivial) (by
    rintro _ ⟨⟩ -
    exact h)

theorem check_bind {f : σ → Except ε α} {g : α → Script σ ε β} {Q : β → σ → Prop}
    (h : ∀ a, f s = .ok a → Steps R (g a) s Q) : Steps R (Script.check f >>= g) s Q :=
  bind (P := fun _ _ => True) (check fun _ _ => trivial) fun a ha _ => h a ha

theorem act_bind {f : σ → Except ε α × σ} {g : α → Script σ ε β} {Q : β → σ → Prop}
    (hmove : ReflTransGen R s (f s).2) (h : ∀ a, (f s).1 = .ok a → Steps R (g a) (f s).2 Q) :
    Steps R (Script.act f >>= g) s Q :=
  bind (P := fun _ _ => True) (act hmove fun _ _ => trivial) fun a ha _ => h a ha

theorem modify_bind {f : σ → σ} {g : Unit → Script σ ε β} {Q : β → σ → Prop}
    (hmove : ReflTransGen R s (f s)) (h : Steps R (g ()) (f s) Q) :
    Steps R (Script.modify f >>= g) s Q :=
  act_bind hmove fun _ _ => h

theorem mono {p : Script σ ε α} {Q Q' : α → σ → Prop} (h : Steps R p s Q)
    (hpost : ∀ a t, Q a t → Q' a t) : Steps R p s Q' :=
  ⟨h.passed, h.last, fun a ha => hpost a _ (h.post a ha)⟩

end Steps

/-- What every move keeps holds wherever the path ends. -/
theorem keeps {R : σ → σ → Prop} {I : σ → Prop} (hmove : ∀ s t, R s t → I s → I t) {s t : σ}
    (h : ReflTransGen R s t) (hI : I s) : I t := by
  induction h with
  | refl => exact hI
  | tail _ hlast ih => exact hmove _ _ hlast ih

/-! ## What a script leaves -/

/-- Every statement of the script leaves `g` as it is. -/
def Leaves {γ : Type} (g : σ → γ) (p : Script σ ε α) : Prop :=
  ∀ s, Steps (fun t u => g u = g t) p s fun _ _ => True

namespace Leaves

variable {γ : Type} {g : σ → γ}

theorem pure (a : α) : Leaves g (pure a : Script σ ε α) := fun _ => Steps.pure trivial

theorem get : Leaves g (Script.get : Script σ ε σ) :=
  fun _ => Steps.check (f := .ok) fun _ _ => trivial

theorem check (f : σ → Except ε α) : Leaves g (Script.check f) :=
  fun _ => Steps.check fun _ _ => trivial

theorem act {f : σ → Except ε α × σ} (h : ∀ s, g (f s).2 = g s) : Leaves g (Script.act f) :=
  fun s => Steps.act (.single (h s)) fun _ _ => trivial

theorem modify {f : σ → σ} (h : ∀ s, g (f s) = g s) :
    Leaves g (Script.modify f : Script σ ε Unit) :=
  fun s => Steps.modify (.single (h s)) trivial

theorem bind {p : Script σ ε α} {f : α → Script σ ε β} (hp : Leaves g p)
    (hf : ∀ a, Leaves g (f a)) : Leaves g (p >>= f) :=
  fun s => Steps.bind (hp s) fun a _ _ => hf a _

theorem states {p : Script σ ε α} (h : Leaves g p) {s t : σ} (ht : t ∈ (p s).states) :
    g t = g s :=
  keeps (I := fun u => g u = g s) (fun _ _ hmove hs => hmove.trans hs) ((h s).states t ht) rfl

theorem last {p : Script σ ε α} (h : Leaves g p) (s : σ) : g (p s).last = g s :=
  h.states (List.mem_append_right _ (List.mem_singleton_self _))

/-- Such statements are moves of any relation that holds where `g` is the same. -/
theorem steps {R : σ → σ → Prop} {p : Script σ ε α} (h : Leaves g p)
    (hR : ∀ s t, g t = g s → R s t) (s : σ) : Steps R p s fun _ _ => True where
  passed t ht := .single (hR s t (h.states (List.mem_append_left _ ht)))
  last := .single (hR s _ (h.last s))
  post _ _ := trivial

end Leaves

end Interrupt
