import ProgramBreeding.Proofs.Source.Lexemes
import ProgramBreeding.Proofs.Source.RoundTrip
import ProgramBreeding.Proofs.Tree.WellFormed

/-!
# How deep parsed programs are

The nesting limit does not bound the depth of a program.  What stands left of an operator, what a call or a
subscript is put after and the alternatives of a conditional are read by loops, each round of which makes the
program one node deeper and enters no level.  Paths down such chains are as long as one likes.  What the limit
does bound is how often a path turns away from a chain.

## Main definitions

* `Node.link?`, `Node.turns` — the child with which a chain goes on, and the other children.
* `Node.Descends` — the paths down from a node, with their length and the number of their turns.
* `Node.HasRoom` — nodes that were read with levels left for some number of turns.
* `turns_le_of_parse` — paths down from the statements of a parsed program have at most a thousand turns.
* `not_length_le_of_parse` — their length has no bound.

## Design notes

A level is good for ten turns.  Within one level each turn leads to an expression that binds more strongly than
the one it is a part of, and there are ten strengths.
-/

namespace ProgramBreeding

open Source

variable {α β : Type}

/-! ### Chains and turns -/

/-- The child with which a chain goes on: what stands left of an operator that groups to the left, what a call,
an attribute or a subscript is put after, or the next condition of a conditional. -/
def Node.link? : Node α → Option (Node α)
  | .expr (.binary _ op left _) => if op = .pow then none else some (.expr left)
  | .expr (.logic _ _ left _) => some (.expr left)
  | .expr (.call _ callee _) => some (.expr callee)
  | .expr (.attribute _ value _) => some (.expr value)
  | .expr (.subscript _ value _) => some (.expr value)
  | .stmt (.ifElse _ _ _ orelse) => if isChained orelse then (orelse.map .stmt).head? else none
  | _ => none

/-- The children with which no chain goes on. -/
def Node.turns : Node α → List (Node α)
  | .expr (.binary _ op left right) => if op = .pow then [.expr left, .expr right] else [.expr right]
  | .expr (.logic _ _ _ right) => [.expr right]
  | .expr (.call _ _ args) => args.map .expr
  | .expr (.attribute ..) => []
  | .expr (.subscript _ _ index) => [.expr index]
  | .stmt (.ifElse _ test body orelse) =>
    .expr test :: (body.map .stmt ++ if isChained orelse then [] else orelse.map .stmt)
  | node => node.children

theorem isChained_eq_true {orelse : Block α} (h : isChained orelse = true) : ∃ s, orelse = [s] := by
  unfold isChained at h
  split at h
  · exact ⟨_, rfl⟩
  · cases h

/-- Each child goes on with the chain or turns away from it. -/
theorem Node.children_perm (node : Node α) : node.children.Perm (node.turns ++ node.link?.toList) := by
  cases node with
  | expr e =>
    cases e with
    | binary _ op left right =>
      by_cases hop : op = .pow
      · simp [Node.children, Expr.children, Node.turns, Node.link?, hop]
      · simpa [Node.children, Expr.children, Node.turns, Node.link?, hop] using List.Perm.swap _ _ _
    | logic => exact List.Perm.swap _ _ _
    | call => exact (List.perm_append_singleton _ _).symm
    | subscript => exact List.Perm.swap _ _ _
    | _ => simp [Node.children, Expr.children, Node.turns, Node.link?]
  | stmt s =>
    cases s with
    | ifElse _ test body orelse =>
      by_cases hchained : isChained orelse = true
      · obtain ⟨s, rfl⟩ := isChained_eq_true hchained
        simp [Node.children, Node.turns, Node.link?, hchained]
      · simp [Node.children, Node.turns, Node.link?, hchained]
    | _ => simp [Node.turns, Node.link?]

/-- The paths down from a node, with the number of nodes on them and the number of steps that turn away from a
chain. -/
inductive Node.Descends : Node α → Nat → Nat → Prop
  | stop (node : Node α) : Descends node 1 0
  | link {node child : Node α} {length turns : Nat} (h : child ∈ node.link?) (hpath : child.Descends length turns) :
    Descends node (length + 1) turns
  | turn {node child : Node α} {length turns : Nat} (h : child ∈ node.turns) (hpath : child.Descends length turns) :
    Descends node (length + 1) (turns + 1)

/-! ### The limit -/

/-- Nodes that can be written down with levels left for `room` turns. -/
inductive Node.HasRoom (room : Nat) : Node α → Prop
  | expr {e : Expr α} {levels : Nat} (h : e.Fits levels) (hroom : 10 * levels + 9 ≤ room + strength e) :
    HasRoom room (.expr e)
  | stmt {s : Stmt α} {levels : Nat} (h : s.Fits levels) (hroom : 10 * levels ≤ room) : HasRoom room (.stmt s)

variable {room levels : Nat}

/-- What is strong enough for its place has the room that the place gives it; anything else is put in
parentheses, and those take a level. -/
theorem Expr.FitsIn.hasRoom {least : Nat} {e : Expr α} (h : e.FitsIn least levels) (hleast : least ≤ 9)
    (hroom : 10 * levels + 9 ≤ room + least) : (Node.expr e).HasRoom room := by
  unfold Expr.FitsIn EnclosedFits at h
  split at h
  · rename_i hweak
    obtain ⟨hlevels, hfits⟩ := h
    have hlt := Nat.succ_le_of_lt hweak
    exact .expr hfits (by omega)
  · rename_i hstrong
    have hle := Nat.not_lt.mp hstrong
    exact .expr h (by omega)

theorem Expr.FitsStmt.hasRoom {e : Expr α} (h : e.FitsStmt levels) (hroom : 10 * levels ≤ room + 1) :
    (Node.expr e).HasRoom room := by
  have hlevels := h.1
  exact h.2.hasRoom (by decide) (by simp only [Strength.or]; omega)

theorem Block.Fits.hasRoom {body : Block α} (h : Block.Fits levels body) (hroom : 10 * levels ≤ room) :
    ∀ child ∈ List.map Node.stmt body, child.HasRoom room := by
  intro child hchild
  obtain ⟨s, hs, rfl⟩ := List.mem_map.mp hchild
  exact .stmt (Block.fits_iff.mp h s hs) hroom

theorem Expr.FitAll.hasRoom {least : Nat} {items : List (Expr α)} (h : Expr.FitAll levels least items)
    (hleast : least ≤ 9) (hroom : 10 * levels + 9 ≤ room + least) :
    ∀ child ∈ items.map Node.expr, child.HasRoom room := by
  intro child hchild
  obtain ⟨e, he, rfl⟩ := List.mem_map.mp hchild
  exact (Expr.fitAll_iff.mp h e he).hasRoom hleast hroom

namespace Node.HasRoom

/-- A chain goes on at the same level and the same strength. -/
theorem link {node child : Node α} (h : node.HasRoom room) (hchild : child ∈ node.link?) : child.HasRoom room := by
  cases h with
  | @expr e levels h hroom =>
    cases e with
    | binary _ op left right =>
      -- Powers group to the right, so both of their operands are turns.
      by_cases hop : op = .pow
      · simp [Node.link?, hop] at hchild
      · simp only [Node.link?, if_neg hop, Option.mem_some_iff] at hchild
        subst hchild
        refine Expr.FitsIn.hasRoom h.1 (by cases op <;> decide) ?_
        cases op <;> first | exact hroom | exact absurd rfl hop
    | logic _ op left right =>
      cases hchild
      exact Expr.FitsIn.hasRoom h.1 (by cases op <;> decide) hroom
    | call => cases hchild; exact Expr.FitsIn.hasRoom h.1 (by decide) hroom
    | «attribute» => cases hchild; exact Expr.FitsIn.hasRoom h.1 (by decide) hroom
    | subscript => cases hchild; exact Expr.FitsIn.hasRoom h.1 (by decide) hroom
    | _ => cases hchild
  | @stmt s levels h hroom =>
    cases s with
    | ifElse _ test body orelse =>
      by_cases hchained : isChained orelse = true
      · obtain ⟨s, rfl⟩ := isChained_eq_true hchained
        simp only [Node.link?, if_pos hchained] at hchild
        cases hchild
        have horelse := h.2.2
        rw [if_pos hchained] at horelse
        exact horelse.hasRoom hroom _ List.mem_cons_self
      · simp [Node.link?, hchained] at hchild
    | _ => cases hchild

/-- A part that is stronger than the whole, or stands a level further in. -/
theorem part {e part : Expr α} {n : Nat} {least : Nat} (hroom : 10 * levels + 9 ≤ room + strength e)
    (h : part.FitsIn least n) (hleast : least ≤ 9) (hturn : 10 * n + strength e + 1 ≤ 10 * levels + least) :
    0 < room ∧ (Node.expr part).HasRoom (room - 1) :=
  ⟨by omega, h.hasRoom hleast (by omega)⟩

/-- A turn within a level leads to more strength, and any other turn takes a level. -/
theorem turn_expr {e : Expr α} {child : Node α} (h : e.Fits levels) (hroom : 10 * levels + 9 ≤ room + strength e)
    (hchild : child ∈ (Node.expr e).turns) : 0 < room ∧ child.HasRoom (room - 1) := by
  cases e with
  | name => cases hchild
  | constant => cases hchild
  | list _ items =>
    obtain ⟨item, hitem, rfl⟩ := List.mem_map.mp hchild
    obtain ⟨hlevels, hitems⟩ := h (List.ne_nil_of_mem hitem)
    exact part hroom (Expr.fitAll_iff.mp hitems item hitem) (by decide)
      (by simp only [strength, Strength.atom, Strength.or]; omega)
  | comprehension _ kind element var source cond =>
    have hparts {n : Nat} (helement : element.FitsIn Strength.or n) (hsource : source.FitsIn Strength.or n)
        (hcond : Expr.FitCond n cond) : ∃ part, child = .expr part ∧ part.FitsIn Strength.or n := by
      simp only [Node.turns, Node.children, Expr.children, List.map_cons, List.mem_cons] at hchild
      rcases hchild with rfl | rfl | hchild
      · exact ⟨element, rfl, helement⟩
      · exact ⟨source, rfl, hsource⟩
      · cases cond with
        | none => cases hchild
        | some cond => exact ⟨cond, List.mem_singleton.mp hchild, hcond⟩
    cases kind with
    | list =>
      obtain ⟨hlevels, -, helement, hsource, hcond⟩ := h
      obtain ⟨e, rfl, he⟩ := hparts helement hsource hcond
      exact part hroom he (by decide) (by simp only [strength, Strength.atom, Strength.or]; omega)
    | generator =>
      obtain ⟨-, helement, hsource, hcond⟩ := h
      obtain ⟨e, rfl, he⟩ := hparts helement hsource hcond
      exact part hroom he (by decide) (Nat.le_refl _)
  | binary _ op left right =>
    obtain ⟨hleft, hright⟩ := h
    by_cases hop : op = .pow
    · subst hop
      obtain ⟨hlevels, hright⟩ := hright
      simp only [Node.turns, if_pos, List.mem_cons, List.not_mem_nil, or_false] at hchild
      rcases hchild with rfl | rfl
      · exact part hroom hleft (by decide) (Nat.le_refl _)
      · exact part hroom hright (by decide)
          (by simp only [strength, Strength.ofBinary, Strength.power, Strength.sign]; omega)
    · rw [if_neg hop] at hright
      simp only [Node.turns, if_neg hop, List.mem_singleton] at hchild
      subst hchild
      have hstrength : Strength.rightOf op = Strength.ofBinary op + 1 := by
        cases op <;> first | rfl | exact absurd rfl hop
      exact part hroom hright (by cases op <;> decide) (by rw [hstrength]; exact Nat.le_refl _)
  | unary _ op operand =>
    cases List.mem_singleton.mp hchild
    exact part hroom h.2 (by cases op <;> decide) (by have := h.1; simp only [strength]; omega)
  | logic _ op left right =>
    cases List.mem_singleton.mp hchild
    exact part hroom h.2 (by cases op <;> decide) (Nat.le_refl _)
  | compare _ op left right =>
    simp only [Node.turns, Node.children, Expr.children, List.map_cons, List.mem_cons, List.map_nil,
      List.not_mem_nil, or_false] at hchild
    rcases hchild with rfl | rfl
    · exact part hroom h.1 (by decide) (Nat.le_refl _)
    · exact part hroom h.2 (by decide) (Nat.le_refl _)
  | call _ callee args =>
    obtain ⟨arg, harg, rfl⟩ := List.mem_map.mp hchild
    -- The parentheses of a call take a level, also when a sole generator goes without its own.
    obtain ⟨hlevels, hargs⟩ := h.2 (List.ne_nil_of_mem harg)
    exact part hroom (Expr.fitAll_iff.mp hargs arg harg) (by split <;> decide)
      (by simp only [strength, Strength.atom]; omega)
  | «attribute» => cases hchild
  | subscript _ value index =>
    cases List.mem_singleton.mp hchild
    exact part hroom h.2.2 (by decide) (by have := h.2.1; simp only [strength, Strength.atom, Strength.or]; omega)

/-- A block takes a level, and so does what stands in a statement. -/
theorem turn_stmt {s : Stmt α} {child : Node α} (h : s.Fits levels) (hroom : 10 * levels ≤ room)
    (hchild : child ∈ (Node.stmt s).turns) : 0 < room ∧ child.HasRoom (room - 1) := by
  have hexpr {e : Expr α} (he : e.FitsStmt levels) : 0 < room ∧ (Node.expr e).HasRoom (room - 1) :=
    ⟨by have := he.1; omega, he.hasRoom (by omega)⟩
  have hblock {body : Block α} (hlevels : 0 < levels) (hbody : Block.Fits (levels - 1) body)
      (hmem : child ∈ List.map Node.stmt body) : 0 < room ∧ child.HasRoom (room - 1) :=
    ⟨by omega, hbody.hasRoom (by omega) child hmem⟩
  cases s with
  | functionDef => exact hblock h.2.2.2.1 h.2.2.2.2 hchild
  | ret _ value =>
    obtain ⟨e, he, rfl⟩ := List.mem_map.mp hchild
    exact hexpr (h e (Option.mem_toList.mp he))
  | assign =>
    simp only [Node.turns, Node.children, List.mem_cons, List.not_mem_nil, or_false] at hchild
    rcases hchild with rfl | rfl
    · exact hexpr h.2.1
    · exact hexpr h.2.2
  | augAssign =>
    simp only [Node.turns, Node.children, List.mem_cons, List.not_mem_nil, or_false] at hchild
    rcases hchild with rfl | rfl
    · exact hexpr h.2.2.1
    · exact hexpr h.2.2.2
  | forLoop =>
    rcases List.mem_cons.mp hchild with rfl | hchild
    · exact hexpr h.2.1
    · exact hblock h.2.1.1 h.2.2 hchild
  | whileLoop =>
    rcases List.mem_cons.mp hchild with rfl | hchild
    · exact hexpr h.1
    · exact hblock h.1.1 h.2 hchild
  | ifElse _ test body orelse =>
    obtain ⟨htest, hbody, horelse⟩ := h
    rcases List.mem_cons.mp hchild with rfl | hchild
    · exact hexpr htest
    rcases List.mem_append.mp hchild with hchild | hchild
    · exact hblock htest.1 hbody hchild
    · split at hchild
      · cases hchild
      · rename_i hchained
        rw [if_neg hchained] at horelse
        exact hblock htest.1 horelse hchild
  | expr =>
    cases List.mem_singleton.mp hchild
    exact hexpr h
  | pass => cases hchild
  | brk => cases hchild
  | cont => cases hchild

theorem turn {node child : Node α} (h : node.HasRoom room) (hchild : child ∈ node.turns) :
    0 < room ∧ child.HasRoom (room - 1) := by
  cases h with
  | expr h hroom => exact turn_expr h hroom hchild
  | stmt h hroom => exact turn_stmt h hroom hchild

/-- By induction on the path: links leave the room as it is, and a turn takes one from it. -/
theorem turns_le {node : Node α} (h : node.HasRoom room) {length turns : Nat} (hpath : node.Descends length turns) :
    turns ≤ room := by
  induction hpath generalizing room with
  | stop => exact Nat.zero_le room
  | link hchild _ ih => exact ih (h.link hchild)
  | turn hchild _ ih =>
    obtain ⟨hpos, hroom⟩ := h.turn hchild
    have hrest := ih hroom
    omega

end Node.HasRoom

namespace Source

/-- A path down from a statement of a parsed program turns away from a chain at most a thousand times. -/
theorem turns_le_of_parse {text : String} {body : Block Line} (h : parse text = .ok body) {s : Stmt Line}
    (hs : s ∈ body) {length turns : Nat} (hpath : (Node.stmt s).Descends length turns) : turns ≤ 1000 := by
  have hfits : s.Fits maxNesting := Block.fits_iff.mp (fits_of_parse h) s hs
  exact (Node.HasRoom.stmt hfits (by decide)).turns_le hpath

/-! ### Chains have no bound -/

/-- The expression `1 + 1 + … + 1` with so many operators. -/
def ones : Nat → Expr Unit
  | 0 => .constant () (.int 1)
  | n + 1 => .binary () .add (ones n) (.constant () (.int 1))

/-- By induction on the operators: all of them stand at one level. -/
theorem fitsIn_ones : ∀ n : Nat, (ones n).FitsIn Strength.sum 0
  | 0 => Expr.Fits.bare (by decide) (show IsPlainLiteral (.int 1) by decide)
  | n + 1 => Expr.Fits.bare (Nat.le_refl _)
      ⟨fitsIn_ones n, Expr.Fits.bare (by decide) (show IsPlainLiteral (.int 1) by decide)⟩

theorem shapeOf_ones : ∀ n : Nat, shapeOf (ones n) = ones n
  | 0 => rfl
  | n + 1 => by
    show Expr.binary () .add (shapeOf (ones n)) _ = _
    rw [shapeOf_ones n]
    rfl

/-- By induction on the operators: each of them is on the path to the first operand. -/
theorem descends_of_shapeOf_ones {e : Expr Line} : ∀ {n : Nat}, shapeOf e = ones n →
    (Node.expr e).Descends (n + 1) 0 := by
  intro n h
  induction n generalizing e with
  | zero => exact .stop _
  | succ n ih =>
    cases e with
    | binary line op left right =>
      injection h with _ hop hleft hright
      subst hop
      exact .link (Option.mem_some_self _) (ih hleft)
    | _ => cases h

/-- The text of a sum of ones is a program, and a path in it leads through all operators. -/
theorem exists_descends (n : Nat) : ∃ body s, parse (render [.expr () (ones n)]) = .ok body ∧ s ∈ body ∧
    (Node.stmt s).Descends (n + 2) 1 := by
  have hfits : Block.Fits maxNesting [Stmt.expr () (ones n)] :=
    ⟨⟨by decide, ((fitsIn_ones n).weaken (by decide)).mono (Nat.zero_le _)⟩, trivial⟩
  obtain ⟨body, hparse, hshape⟩ := parse_render hfits
  have hshape : Block.shape body = [.expr () (shapeOf (ones n))] := hshape
  obtain ⟨s, rest, rfl⟩ : ∃ s rest, body = s :: rest := by
    cases body with
    | nil => cases hshape
    | cons s rest => exact ⟨s, rest, rfl⟩
  injection hshape with hstmt _
  cases s with
  | expr line e =>
    injection hstmt with _ hexpr
    rw [shapeOf_ones] at hexpr
    exact ⟨_, _, hparse, List.mem_cons_self, .turn (List.mem_singleton_self _) (descends_of_shapeOf_ones hexpr)⟩
  | _ => cases hstmt

/-- In a sum of two thousand and one ones, a path with two thousand operators on it has one turn. -/
theorem turns_le_of_parse_ones : ∃ body s, parse (render [.expr () (ones 2000)]) = .ok body ∧ s ∈ body ∧
    (Node.stmt s).Descends 2002 1 ∧ 1 ≤ 1000 := by
  obtain ⟨body, s, hparse, hs, hpath⟩ := exists_descends 2000
  exact ⟨body, s, hparse, hs, hpath, turns_le_of_parse hparse hs hpath⟩

/-- No number bounds the length of the paths down from the module of a parsed program. -/
theorem not_length_le_of_parse : ¬ ∃ bound : Nat, ∀ (text : String) (body : Block Line), parse text = .ok body →
    ∀ s ∈ body, ∀ length turns : Nat, (Node.stmt s).Descends length turns → length + 1 ≤ bound := by
  rintro ⟨bound, h⟩
  obtain ⟨body, s, hparse, hs, hpath⟩ := exists_descends bound
  have hle := h _ body hparse s hs _ _ hpath
  omega

end Source

end ProgramBreeding
