import Mathlib.Data.List.Forall2
import ProgramBreeding.Proofs.Execution.Metering

/-!
# Expressions bind nothing

Evaluating an expression leaves all variables of all scopes as they were, also when it
fails: a comprehension gives its variable back, and what a call binds goes with its scope.

## Main definitions

* `State.SameBindings` — states with the same variables in the same scopes.
* `State.SameBut` — the same, apart from some variables of the open scope.
* `sameBut_invariant` — what every step of a run leaves alone.
* `Program.eval_sameBindings` — expressions and calls from outside bind nothing.
-/

namespace ProgramBreeding

/-- Scopes in which all names but some have the same values. -/
def Scope.SameBut (names : String → Prop) (a b : Scope) : Prop :=
  ∀ x, ¬ names x → b.get? x = a.get? x

/-- Scopes in which all names have the same values. -/
abbrev Scope.Same (a b : Scope) : Prop := ∀ x, b.get? x = a.get? x

/-- States with the same variables in the same scopes. -/
structure State.SameBindings (s t : State) : Prop where
  globals : s.globals.Same t.globals
  frames : List.Forall₂ Scope.Same s.frames t.frames

/-- States with the same scopes in which all variables have the same values, apart from
some variables of the open scope. -/
inductive State.SameBut (names : String → Prop) (s t : State) : Prop
  | outside (hs : s.frames = []) (ht : t.frames = [])
      (hglobals : s.globals.SameBut names t.globals)
  | inside {frame frame' : Scope} {rest rest' : List Scope} (hs : s.frames = frame :: rest)
      (ht : t.frames = frame' :: rest') (hframe : frame.SameBut names frame')
      (hrest : List.Forall₂ Scope.Same rest rest') (hglobals : s.globals.Same t.globals)

variable {names : String → Prop} {s t u : State}

theorem Scope.same_rfl (a : Scope) : a.Same a := fun _ => rfl

theorem Scope.Same.trans {a b c : Scope} (h : a.Same b) (h' : b.Same c) : a.Same c :=
  fun x => (h' x).trans (h x)

theorem Scope.SameBut.trans {a b c : Scope} (h : a.SameBut names b) (h' : b.SameBut names c) :
    a.SameBut names c :=
  fun x hx => (h' x hx).trans (h x hx)

theorem sameAll_rfl (scopes : List Scope) : List.Forall₂ Scope.Same scopes scopes :=
  List.forall₂_same.mpr fun a _ => a.same_rfl

theorem sameAll_trans {as bs cs : List Scope} (h : List.Forall₂ Scope.Same as bs)
    (h' : List.Forall₂ Scope.Same bs cs) : List.Forall₂ Scope.Same as cs := by
  induction h generalizing cs with
  | nil => exact h'
  | cons h _ ih =>
    cases h' with
    | cons h' hrest' => exact .cons (h.trans h') (ih hrest')

namespace State.SameBut

/-- Nothing is said about lists, output and fuel. -/
theorem of_eq (hglobals : t.globals = s.globals) (hframes : t.frames = s.frames) :
    s.SameBut names t := by
  cases hs : s.frames with
  | nil => exact .outside hs (hframes.trans hs) fun _ _ => by rw [hglobals]
  | cons frame rest =>
    exact .inside hs (hframes.trans hs) (fun _ _ => rfl) (sameAll_rfl rest) fun _ => by rw [hglobals]

theorem trans (h : s.SameBut names t) (h' : t.SameBut names u) : s.SameBut names u := by
  cases h with
  | outside hs ht hglobals =>
    cases h' with
    | outside _ hu hglobals' => exact .outside hs hu (hglobals.trans hglobals')
    | inside ht' => exact nomatch ht.symm.trans ht'
  | inside hs ht hframe hrest hglobals =>
    cases h' with
    | outside ht' => exact nomatch ht.symm.trans ht'
    | inside ht' hu hframe' hrest' hglobals' =>
      obtain ⟨rfl, rfl⟩ := List.cons.inj (ht.symm.trans ht')
      exact .inside hs hu (hframe.trans hframe') (sameAll_trans hrest hrest')
        (hglobals.trans hglobals')

/-- What the open scope becomes is all that changes when it is updated. -/
theorem updateScope (f : Scope → Scope) (hf : s.scope.SameBut names (f s.scope)) :
    s.SameBut names (s.updateScope f) := by
  cases hs : s.frames with
  | nil =>
    refine .outside hs ?_ ?_ <;> simp_all [State.updateScope, State.scope]
  | cons frame rest =>
    have hscope : s.scope = frame := by rw [State.scope, hs]; rfl
    rw [hscope] at hf
    exact .inside hs (by rw [State.updateScope, hs]) hf (sameAll_rfl rest)
      (by rw [State.updateScope, hs]; exact Scope.same_rfl _)

/-- A variable that was free meanwhile gets its value back. -/
theorem restore {x : String}
    (h : (s.updateScope fun scope => scope.erase x).SameBut (fun y => y = x ∨ names y) t) :
    s.SameBut names (t.restore x (s.scope.get? x)) := by
  have hback {a b : Scope} (hab : (a.erase x).SameBut (fun y => y = x ∨ names y) b) :
      a.SameBut names (b.put x (a.get? x)) := by
    intro y hy
    rw [Scope.get?_put]
    by_cases hyx : y = x
    · rw [if_pos hyx, hyx]
    · rw [if_neg hyx, hab y (by simp [hyx, hy]), Scope.get?_erase, if_neg hyx]
  obtain ⟨globals, frames, heap, used, nextPoll, output⟩ := s
  obtain ⟨globals', frames', heap', used', nextPoll', output'⟩ := t
  cases frames with
  | nil =>
    cases h with
    | outside _ ht hglobals =>
      cases ht
      exact .outside rfl rfl (hback hglobals)
    | inside hs => cases hs
  | cons frame rest =>
    cases h with
    | outside hs => cases hs
    | inside hs ht hframe hrest hglobals =>
      cases hs
      cases ht
      exact .inside rfl rfl (hback hframe) hrest hglobals

/-- What was bound in a scope of its own is gone with it. -/
theorem leaveFrame {frame : Scope}
    (h : State.SameBut (fun _ => True) { s with frames := frame :: s.frames } t) :
    s.SameBut names t.leaveFrame := by
  cases h with
  | outside hs => exact nomatch hs
  | inside hs ht _ hrest hglobals =>
    cases hs
    cases hframes : s.frames with
    | nil =>
      rw [hframes] at hrest
      cases hrest
      exact .outside hframes (congrArg List.tail ht) fun x _ => hglobals x
    | cons frame' rest' =>
      rw [hframes] at hrest
      cases hrest with
      | cons hframe' hrest' =>
        exact .inside hframes (congrArg List.tail ht) (fun x _ => hframe' x) hrest' hglobals

/-- If no variable may differ, none does. -/
theorem sameBindings (h : s.SameBut (fun _ => False) t) : s.SameBindings t := by
  cases h with
  | outside hs ht hglobals => exact ⟨fun x => hglobals x id, by rw [hs, ht]; exact .nil⟩
  | inside hs ht hframe hrest hglobals =>
    exact ⟨hglobals, by rw [hs, ht]; exact .cons (fun x => hframe x id) hrest⟩

end State.SameBut

/-- Steps change variables of the open scope only, and only those that they may change. -/
theorem sameBut_invariant : StepInvariant State.SameBut where
  trans _ _ _ _ := State.SameBut.trans
  quiet _ _ _ _ := .of_eq rfl rfl
  charge _ budget units s := by
    obtain ⟨nextPoll, hend⟩ := endState_charge budget units s
    rw [hend]
    exact .of_eq rfl rfl
  setVar _ _ value s hx := .updateScope _ fun y hy => by
    rw [Scope.get?_insert, if_neg]
    rintro rfl
    exact hy hx
  shielding := State.SameBut.restore
  inFrame := State.SameBut.leaveFrame

/-- Whether it succeeds or fails, an expression of a program leaves all variables of all
scopes as they were, and so does a call from outside. -/
theorem Program.eval_sameBindings (p : Program) (budget : Budget) (s : State) :
    (∀ (depth : Nat) (e : Expr Label),
      s.SameBindings (endState ((e.eval ⟨budget, callFunction p.functions budget depth⟩).run s))) ∧
    ∀ (name : String) (args : List Datum),
      s.SameBindings (endState ((p.call budget name args).run s)) :=
  ⟨fun depth e => ((p.eval_metered depth e _).leads sameBut_invariant budget s).sameBindings,
    fun name args => ((p.call_metered name args _).leads sameBut_invariant budget s).sameBindings⟩

end ProgramBreeding
