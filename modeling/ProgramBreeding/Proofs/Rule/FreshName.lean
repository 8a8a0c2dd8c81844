import ProgramBreeding.Execution.Value
import ProgramBreeding.Proofs.Rule.Writable
import ProgramBreeding.Proofs.Tree.Total

/-!
# Names that are not taken

A name can stand in many places of a program.  `Block.identifiers` collects the names of all of them, and the
search for a name that is not among them ends: it tries different names, more than there are names taken.

## Main definitions

* `Node.Writes`, `Node.Contains`, `Block.Contains` — where a name can stand.
* `NameSearch` — the search, name by name.

## Main results

* `Block.mem_identifiers_iff` — no place where a name can stand is left out.
* `nameSearch_freshName` — the search ends with `freshName`.
* `ofName?_freshName` — what it finds for a length is not the name of a built-in function.
-/

namespace ProgramBreeding

variable {α : Type} {name : String}

/-! ### Names in a program -/

/-- A name that a node itself writes down: as a variable, as an attribute, as the variable of a comprehension or
of a loop, as a function or as one of its parameters. -/
inductive Node.Writes (name : String) : Node α → Prop
  | variable (tag : α) : Writes name (.expr (.name tag name))
  | attribute (tag : α) (value : Expr α) : Writes name (.expr (.attribute tag value name))
  | comprehension (tag : α) (kind : ComprehensionKind) (element source : Expr α) (cond : Option (Expr α)) :
      Writes name (.expr (.comprehension tag kind element name source cond))
  | loop (tag : α) (source : Expr α) (body : Block α) : Writes name (.stmt (.forLoop tag name source body))
  | function (tag : α) (params : List String) (body : Block α) :
      Writes name (.stmt (.functionDef tag name params body))
  | parameter (tag : α) (callee : String) {params : List String} (body : Block α) (h : name ∈ params) :
      Writes name (.stmt (.functionDef tag callee params body))

/-- A name that stands in a node or in a slot below it. -/
inductive Node.Contains (name : String) : Node α → Prop
  | here {node : Node α} (h : node.Writes name) : Contains name node
  | inside {node child : Node α} (hchild : child ∈ node.children) (h : Contains name child) : Contains name node

/-- A name that stands anywhere in a block. -/
def Block.Contains (name : String) (body : Block α) : Prop := ∃ s ∈ body, Node.Contains name (.stmt s)

theorem Node.writes_iff {node : Node α} : node.Writes name ↔ name ∈ node.identifiers := by
  constructor
  · intro h
    cases h with
    | parameter _ _ _ h => exact .tail _ h
    | _ => exact .head _
  · intro h
    unfold Node.identifiers at h
    split at h
    case h_4 =>
      rcases List.mem_cons.mp h with rfl | h
      · exact .function ..
      · exact .parameter _ _ _ h
    case h_6 => cases h
    all_goals
      rw [List.mem_singleton.mp h]
      constructor

/-- By induction on the node: a name stands in it if one of the nodes below it, or it itself, writes it down. -/
theorem Node.contains_iff {node : Node α} : node.Contains name ↔ ∃ part ∈ node.nodes, part.Writes name := by
  constructor
  · intro h
    induction h with
    | here h => exact ⟨_, Node.nodes_eq _ ▸ .head _, h⟩
    | inside hchild _ ih =>
      obtain ⟨part, hpart, hwrites⟩ := ih
      exact ⟨part, Node.nodes_eq _ ▸ .tail _ (List.mem_flatMap.mpr ⟨_, hchild, hpart⟩), hwrites⟩
  · induction node using Node.induct with
    | h node ih =>
      rintro ⟨part, hpart, hwrites⟩
      rw [Node.nodes_eq] at hpart
      rcases List.mem_cons.mp hpart with rfl | hpart
      · exact .here hwrites
      · obtain ⟨child, hchild, hpart⟩ := List.mem_flatMap.mp hpart
        exact .inside hchild (ih child hchild ⟨part, hpart, hwrites⟩)

theorem Block.contains_iff {body : Block α} :
    Block.Contains name body ↔ ∃ node ∈ Block.nodes body, node.Writes name := by
  simp only [Block.Contains, Node.contains_iff, Block.nodes_eq, List.mem_flatMap, List.mem_map]
  constructor
  · rintro ⟨s, hs, node, hnode, hwrites⟩
    exact ⟨node, ⟨_, ⟨s, hs, rfl⟩, hnode⟩, hwrites⟩
  · rintro ⟨node, ⟨_, ⟨s, hs, rfl⟩, hnode⟩, hwrites⟩
    exact ⟨s, hs, node, hnode, hwrites⟩

/-- The names of a block are those that stand anywhere in it. -/
theorem Block.mem_identifiers_iff {body : Block α} : name ∈ Block.identifiers body ↔ Block.Contains name body := by
  simp only [Block.identifiers, List.mem_flatMap, Block.contains_iff, Node.writes_iff]

/-! ### The search -/

/-- A search for a name that is not taken, from a candidate and the number to try next: a candidate that is not
taken is found, and one that is taken is followed by the base with the number. -/
inductive NameSearch (taken : List String) (base : String) : String → Nat → String → Prop
  | found {candidate : String} {number : Nat} (h : candidate ∉ taken) :
      NameSearch taken base candidate number candidate
  | next {candidate : String} {number : Nat} {name : String} (h : candidate ∈ taken)
      (hrest : NameSearch taken base (base ++ toString number) (number + 1) name) :
      NameSearch taken base candidate number name

theorem NameSearch.notMem {taken : List String} {base candidate : String} {number : Nat}
    (h : NameSearch taken base candidate number name) : name ∉ taken := by
  induction h with
  | found h => exact h
  | next _ _ ih => exact ih

theorem toString_injective : Function.Injective (toString : Nat → String) := by
  intro m n h
  have hdigits : Nat.toDigits 10 m = Nat.toDigits 10 n := by
    simpa [Nat.toString_eq_ofList_toDigits] using congrArg String.toList h
  calc
    m = Nat.ofDigitChars 10 (Nat.toDigits 10 m) 0 := Nat.ofDigitChars_ten_toDigits.symm
    _ = Nat.ofDigitChars 10 (Nat.toDigits 10 n) 0 := by rw [hdigits]
    _ = n := Nat.ofDigitChars_ten_toDigits

/-- The names that a search tries, before it has tried more than a number of them. -/
def candidates (base candidate : String) (number count : Nat) : List String :=
  candidate :: (List.range' number count).map fun k => base ++ toString k

/-- A search tries different names. -/
theorem nodup_candidates (base : String) (number count : Nat) : (candidates base base number count).Nodup := by
  refine List.nodup_cons.mpr ⟨fun hbase => ?_, List.Nodup.map (fun m n h => ?_) List.nodup_range'⟩
  · obtain ⟨k, -, hk⟩ := List.mem_map.mp hbase
    have hempty : Nat.toDigits 10 k = [] := by
      simpa [Nat.toString_eq_ofList_toDigits] using congrArg String.toList hk
    exact Nat.toDigits_ne_nil hempty
  · exact toString_injective ((String.append_right_inj base).mp h)

/-- Of as many different names as there are taken, and one more, one is free. -/
theorem exists_candidate_notMem (taken : List String) (base : String) :
    ∃ name ∈ candidates base base 2 taken.length, name ∉ taken := by
  refine Decidable.byContradiction fun hnone => ?_
  have hsubset : candidates base base 2 taken.length ⊆ taken := fun name hname =>
    Decidable.byContradiction fun hfree => hnone ⟨name, hname, hfree⟩
  have hlength := (nodup_candidates base 2 taken.length).length_le_of_subset hsubset
  rw [candidates, List.length_cons, List.length_map, List.length_range'] at hlength
  exact Nat.not_succ_le_self _ hlength

/-- By induction on the number of names: the first of them that is not taken is what a search finds. -/
theorem nameSearch_of_find? {taken : List String} {base : String} :
    ∀ {count : Nat} {candidate : String} {number : Nat},
      (candidates base candidate number count).find? (fun name => !taken.contains name) = some name →
        NameSearch taken base candidate number name
  | count, candidate, number, h => by
    by_cases hcandidate : candidate ∈ taken
    · rw [candidates, List.find?_cons_of_neg (by simpa using hcandidate)] at h
      cases count with
      | zero => cases h
      | succ count => exact .next hcandidate (nameSearch_of_find? h)
    · rw [candidates, List.find?_cons_of_pos (by simpa using hcandidate)] at h
      cases h
      exact .found hcandidate

/-- The search that starts with the base and the number two ends, with the name that is taken to be new. -/
theorem nameSearch_freshName (taken : List String) (base : String) :
    NameSearch taken base base 2 (freshName taken base) := by
  have hcandidates : candidates base base 2 taken.length =
      base :: (List.range taken.length).map fun k => base ++ toString (k + 2) := by
    simp only [candidates, List.range'_eq_map_range, List.map_map, Function.comp_def, Nat.add_comm 2]
  obtain ⟨name, hname, hfree⟩ := exists_candidate_notMem taken base
  obtain ⟨found, hfound⟩ : ∃ found,
      (candidates base base 2 taken.length).find? (fun name => !taken.contains name) = some found :=
    Option.isSome_iff_exists.mp (List.find?_isSome.mpr ⟨name, hname, by simpa using hfree⟩)
  have hfresh : freshName taken base = found := by
    rw [freshName, ← hcandidates, hfound, Option.getD_some]
  exact hfresh ▸ nameSearch_of_find? hfound

example : freshName ["f", "xs", "n_xs", "i"] "n_xs" = "n_xs2" := by decide

/-! ### Built-in functions -/

/-- The names of built-in functions start otherwise. -/
theorem ofName?_freshName (taken : List String) (list : String) :
    Builtin.ofName? (freshName taken ("n_" ++ list)) = none := by
  obtain ⟨rest, hrest⟩ : ∃ rest, freshName taken ("n_" ++ list) = "n_" ++ rest := by
    rcases freshName_eq taken ("n_" ++ list) with h | ⟨k, h⟩
    · exact ⟨list, h⟩
    · exact ⟨list ++ toString k, by rw [h, String.append_assoc]⟩
  have hstart : ∀ builtin ∈ Builtin.every, builtin.name.toList.take 2 ≠ ['n', '_'] := by decide
  refine List.find?_eq_none.mpr fun builtin hbuiltin heq => hstart builtin hbuiltin ?_
  rw [beq_iff_eq.mp heq, hrest, String.toList_append]
  rfl

end ProgramBreeding
