import ProgramBreeding.Proofs.Execution.Bindings
import ProgramBreeding.Proofs.Execution.Programs
import ProgramBreeding.Proofs.Execution.Untouched

/-!
# Two runs of which something is known

Where two programs differ, more is known of the states of their runs than that they are alike: what a variable
holds that the other program does without.

## Main definitions

* `Assumption` — what is known of the states of two runs.
* `SimUnder` — `Sim` while something is known.
* `Sim.under`, `Step.under` — steps that leave alone what is known.
* `Alike.left`, `Assumption.payLeft` — steps of the first run alone.
-/

namespace ProgramBreeding

variable {S : Setting} {V : View} {P Q : Pairing} {c c' d : Nat} {α β γ δ : Type}

/-- What is known of the states of two runs, whatever the meters show and however many lists stand for each
other. -/
structure Assumption where
  holds : Pairing → State → State → Prop
  mono : ∀ {P Q s s'}, P ≤ Q → holds P s s' → holds Q s s'
  meter : ∀ {P s s' t t'}, s.SameButMeter t → s'.SameButMeter t' → holds P s s' → holds P t t'

/-- States that are alike and of which something is known. -/
def Assumption.Within (F : Assumption) (S : Setting) (V : View) (P : Pairing) (c : Nat) (s s' : State) : Prop :=
  s.Agree S V P c s' ∧ F.holds P s s'

/-- `Sim` while something is known. -/
def SimUnder (F : Assumption) (S : Setting) (V : View) (P : Pairing) (c c' : Nat) (A : Pairing → α → β → Prop)
    (m : Exec α) (m' : Exec β) : Prop :=
  Alike S (F.Within S V P c) (fun a a' s s' => ∃ Q, P ≤ Q ∧ A Q a a' ∧ F.Within S V Q c' s s') m m'

/-- What is known before goes on to be known. -/
def Assumption.Survives (F : Assumption) (m : Exec α) (m' : Exec β) : Prop :=
  ∀ P s s' a a' t t', F.holds P s s' → m.run s = .ok a t → m'.run s' = .ok a' t' → F.holds P t t'

variable {F : Assumption} {A : Pairing → α → β → Prop} {B : Pairing → γ → δ → Prop} {m : Exec α} {m' : Exec β}
  {f : α → Exec γ} {f' : β → Exec δ} {pre : State → State → Prop} {post : γ → δ → State → State → Prop}

/-! ### Steps of one run -/

/-- The first run takes a step. -/
protected theorem Alike.left {mid : α → State → State → Prop} {n' : Exec δ}
    (h : Alike S pre (fun a _ => mid a) m (pure ())) (hf : ∀ a, Alike S (mid a) post (f a) n') :
    Alike S pre post (m >>= f) n' := by
  have hboth : Alike S pre post (m >>= f) (pure () >>= fun _ => n') := h.bind fun a _ => hf a
  rwa [pure_bind] at hboth

/-- The second run takes a step. -/
protected theorem Alike.right {mid : β → State → State → Prop} {n : Exec γ}
    (h : Alike S pre (fun _ a' => mid a') (pure ()) m') (hf : ∀ a', Alike S (mid a') post n (f' a')) :
    Alike S pre post n (m' >>= f') := by
  have hboth : Alike S pre post (pure () >>= fun _ => n) (m' >>= f') := h.bind fun _ a' => hf a'
  rwa [pure_bind] at hboth

/-- The first run fails, which is of no concern if the second need not fail with it. -/
protected theorem Alike.raiseLeft {m' : Exec δ} (fault : Fault) (f : α → Exec γ) (h : ¬ S.faithful) :
    Alike S pre post (raise fault >>= f) m' :=
  fun _ _ _ hfaithful => absurd hfaithful h

/-- Less is known before. -/
protected theorem Alike.weaken {pre' : State → State → Prop} {post : α → β → State → State → Prop}
    (h : Alike S pre post m m') (hpre : ∀ s s', pre' s s' → pre s s') : Alike S pre' post m m' :=
  fun s s' hs => h s s' (hpre s s' hs)

/-! ### Steps of both runs -/

/-- A step after which is known what was known before. -/
protected theorem Step.under {A₀ : α → β → Prop} (h : Step S V P c d A₀ m m') (hF : F.Survives m m')
    (hf : ∀ a a', A₀ a a' → Alike S (F.Within S V P d) post (f a) (f' a')) :
    Alike S (F.Within S V P c) post (m >>= f) (m' >>= f') := by
  have hboth : Alike S (F.Within S V P c) (fun a a' s s' => A₀ a a' ∧ F.Within S V P d s s') m m' := by
    rintro s s' ⟨hagree, hknown⟩
    have hends := h s s' hagree
    cases hrun : m.run s with
    | error e t =>
      rw [hrun] at hends
      exact hends
    | ok a t =>
      rw [hrun] at hends
      obtain ⟨a', t', hrun', ha, ht⟩ := hends
      exact ⟨a', t', hrun', ha, ht, hF P s s' a a' t t' hknown hrun hrun'⟩
  exact hboth.bind fun a a' s s' h => hf a a' h.1 s s' h.2

/-- Steps after which is known what was known before. -/
theorem Sim.under (h : Sim S V P c c' A m m') (hF : F.Survives m m') : SimUnder F S V P c c' A m m' := by
  rintro s s' ⟨hagree, hknown⟩
  have hends := h s s' hagree
  cases hrun : m.run s with
  | error e t =>
    rw [hrun] at hends
    exact hends
  | ok a t =>
    rw [hrun] at hends
    obtain ⟨a', t', hrun', Q, hle, ha, ht⟩ := hends
    exact ⟨a', t', hrun', Q, hle, ha, ht, F.mono hle (hF P s s' a a' t t' hknown hrun hrun')⟩

namespace Assumption

theorem survives_of_inspects (h : Inspects m) (h' : Inspects m') : F.Survives m m' :=
  fun _ _ _ _ _ _ _ hknown hrun hrun' => F.meter (h.sameButMeter hrun) (h'.sameButMeter hrun') hknown

/-- The first run pays, and the second saves it. -/
protected theorem payLeft {n : Exec γ} {n' : Exec δ} (units : UInt64)
    (h : Alike S (F.Within S V P (c + (1 + S.extra) * units.toNat)) post n n') :
    Alike S (F.Within S V P c) post (do charge S.budget units; n) n' := by
  have hpay : Step S V P c (c + (1 + S.extra) * units.toNat) (fun _ _ => True) (charge S.budget units) (pure ()) := by
    rw [← bind_pure_unit (x := charge S.budget units)]
    exact Alike.chargeLeft units (Step.pure trivial)
  have hboth : Alike S (F.Within S V P c) post (do charge S.budget units; n) (pure () >>= fun _ => n') :=
    hpay.under (survives_of_inspects (.charge ..) (.pure ())) fun _ _ _ => h
  rwa [pure_bind] at hboth

/-- The second run pays with what it has saved. -/
protected theorem payRight {n : Exec γ} {n' : Exec δ} (units : UInt64) (hunits : units.toNat ≤ c)
    (h : Alike S (F.Within S V P (c - units.toNat)) post n n') :
    Alike S (F.Within S V P c) post n (do charge S.budget' units; n') := by
  have hpay : Step S V P c (c - units.toNat) (fun _ _ => True) (pure ()) (charge S.budget' units) := by
    rw [← bind_pure_unit (x := charge S.budget' units)]
    exact Alike.chargeRight units hunits (Step.pure trivial)
  have hboth : Alike S (F.Within S V P c) post (pure () >>= fun _ => n) (do charge S.budget' units; n') :=
    hpay.under (survives_of_inspects (.pure ()) (.charge ..)) fun _ _ _ => h
  rwa [pure_bind] at hboth

/-- Both runs spend the same fuel. -/
protected theorem charge {n : Exec γ} {n' : Exec δ} (units : UInt64) (h : Alike S (F.Within S V P c) post n n') :
    Alike S (F.Within S V P c) post (do charge S.budget units; n) (do charge S.budget' units; n') :=
  (Step.charge units).under (survives_of_inspects (.charge ..) (.charge ..)) fun _ _ _ => h

end Assumption

namespace SimUnder

protected theorem pure {a : α} {b : β} (h : A P a b) : SimUnder F S V P c c A (pure a) (pure b) :=
  Alike.pure fun _ _ hwithin => ⟨P, le_rfl, h, hwithin⟩

/-- What comes after may end in any way. -/
protected theorem andThen (h : SimUnder F S V P c d A m m')
    (hf : ∀ Q, P ≤ Q → ∀ a a', A Q a a' → Alike S (F.Within S V Q d) post (f a) (f' a')) :
    Alike S (F.Within S V P c) post (m >>= f) (m' >>= f') :=
  Alike.bind h fun a a' s s' ⟨Q, hle, ha, hwithin⟩ => hf Q hle a a' ha s s' hwithin

protected theorem bind (h : SimUnder F S V P c d A m m')
    (hf : ∀ Q, P ≤ Q → ∀ a a', A Q a a' → SimUnder F S V Q d c' B (f a) (f' a')) :
    SimUnder F S V P c c' B (m >>= f) (m' >>= f') :=
  h.andThen fun Q hle a a' ha => Alike.imp (hf Q hle a a' ha) fun _ _ _ _ ⟨R, hle', hb⟩ => ⟨R, le_trans hle hle', hb⟩

/-- Credit may go to waste. -/
protected theorem mono (hle : c' ≤ d) (h : SimUnder F S V P c d A m m') : SimUnder F S V P c c' A m m' :=
  Alike.imp h fun _ _ _ _ ⟨Q, hPQ, ha, hs⟩ => ⟨Q, hPQ, ha, hs.1.mono hle, hs.2⟩

end SimUnder

/-- There may be more credit than is needed. -/
theorem Assumption.spare {n : Exec γ} {n' : Exec δ} (hle : c ≤ d) (h : Alike S (F.Within S V P c) post n n') :
    Alike S (F.Within S V P d) post n n' :=
  h.weaken fun _ _ hwithin => ⟨hwithin.1.mono hle, hwithin.2⟩

end ProgramBreeding
