import MipsBackend.Proofs.Addressing
import MipsBackend.Proofs.Symbols

/-! Storage. Code addresses arrays and the variables that functions share by their symbols, and the
data section has storage for arrays and for shared integer variables. -/
namespace MipsBackend
open Asm Asm.Register

/-! ### What is lowered -/

namespace Instruction

/-- The operands that an instruction reads or writes as variables. -/
def valueNames (i : Instruction) : List String :=
  match i.op with
  | .assign => if i.arg3 = "" then [i.arg2, i.arg1] else [i.arg3]
  | .arith _ => [i.arg1, i.arg2, i.arg3]
  | .branch _ => [i.arg1, i.arg2]
  | .ret => [i.arg1]
  | .call => [i.arg2, i.arg3]
  | .callr => [i.arg3, i.arg1]
  | .arrayStore => [i.arg3, i.arg2]
  | .arrayLoad => [i.arg3, i.arg1]
  | .goto | .other _ => []

/-- The array that an instruction addresses. -/
def arrayNames (i : Instruction) : List String := (i.arrayUse?.map Prod.fst).toList

end Instruction

/-- The names that a function reads or writes as variables. -/
def FunctionDef.valueNames (f : FunctionDef) : List String :=
  f.params ++ f.code.flatMap Instruction.valueNames

namespace Scope

/-- Actions that address the shared ones among the variables `vs`, and the arrays `bs`. -/
structure Touches (s : Scope) (as : List Action) (vs bs : List String) : Prop where
  explicit : ∀ a ∈ as, a.IsExplicit
  symbols : ∀ x, (∃ a ∈ as, a.Addresses s x) ↔
    x ∈ vs ∧ s.program.isGlobal x = true ∨ x ∈ bs

variable {s : Scope} {a : Action} {as as' : List Action} {vs vs' bs bs' : List String}
  {v r op array : String} {n : Nat} {i : Instruction}

namespace Touches

lemma nil : s.Touches [] [] [] := ⟨by simp, by simp⟩

lemma append (h : s.Touches as vs bs) (h' : s.Touches as' vs' bs') :
    s.Touches (as ++ as') (vs ++ vs') (bs ++ bs') := by
  refine ⟨List.forall_mem_append.mpr ⟨h.explicit, h'.explicit⟩, fun x => ?_⟩
  have hsplit : (∃ a ∈ as ++ as', a.Addresses s x) ↔
      (∃ a ∈ as, a.Addresses s x) ∨ ∃ a ∈ as', a.Addresses s x := by
    simp only [List.mem_append, or_and_right, exists_or]
  rw [hsplit, h.symbols, h'.symbols, List.mem_append, List.mem_append]
  tauto

/-- More actions that address nothing. -/
lemma quiet (h : s.Touches as vs bs) (h' : s.Touches as' [] []) : s.Touches (as ++ as') vs bs := by
  have happend := h.append h'
  rwa [List.append_nil, List.append_nil] at happend

/-- Only the shared ones among the variables count. -/
lemma congr (h : s.Touches as vs bs)
    (hvs : ∀ x, s.program.isGlobal x = true → (x ∈ vs ↔ x ∈ vs')) : s.Touches as vs' bs := by
  refine ⟨h.explicit, fun x => ?_⟩
  rw [h.symbols, and_comm, and_comm (a := x ∈ vs'), and_congr_right (hvs x)]

lemma silent (h : s.Touches as vs bs) (ha : a.IsExplicit) (hx : ∀ x, ¬ a.Addresses s x) :
    s.Touches (a :: as) vs bs := by
  refine ⟨List.forall_mem_cons.mpr ⟨ha, h.explicit⟩, fun x => ?_⟩
  rw [List.exists_mem_cons_iff, or_iff_right (hx x), h.symbols]

lemma emit {args : List Operand} {note : Option String} (hop : op ∉ "la" :: memoryOps)
    (h : s.Touches as vs bs) : s.Touches (.emit op args note :: as) vs bs := by
  refine h.silent (fun h => absurd h hop) fun x => ?_
  rintro ⟨-, h | rfl⟩
  · exact hop (List.mem_cons_of_mem _ h.1)
  · exact hop (by simp)

/-- A load or store at an offset from a register. -/
lemma memory {args : List Operand} {note : Option String} {offset : Int} {base : Register}
    (hop : op ∈ memoryOps) (hargs : args[1]? = some (.text (address offset base)))
    (h : s.Touches as vs bs) : s.Touches (.emit op args note :: as) vs bs := by
  refine h.silent (fun _ => ⟨_, hargs⟩) fun x => ?_
  rintro ⟨hx, ⟨-, h⟩ | rfl⟩
  · rw [hargs] at hx
    cases hx
    exact h ⟨_, _, rfl⟩
  · revert hop
    decide

lemma la (h : s.Touches as vs bs) : s.Touches (.line "la" [r, array] :: as) vs (array :: bs) := by
  refine ⟨List.forall_mem_cons.mpr ⟨fun _ => ⟨_, rfl⟩, h.explicit⟩, fun x => ?_⟩
  have hla : (Action.line "la" [r, array]).Addresses s x ↔ x = array := by
    constructor
    · rintro ⟨hx, -⟩
      cases hx
      rfl
    · rintro rfl
      exact ⟨rfl, Or.inr rfl⟩
  rw [List.exists_mem_cons_iff, hla, h.symbols, List.mem_cons]
  tauto

lemma named (ha : a.IsExplicit)
    (hx : ∀ x, a.Addresses s x ↔ s.program.isGlobal v = true ∧ v = x) : s.Touches [a] [v] [] := by
  refine ⟨by simpa using ha, fun x => ?_⟩
  simp only [List.mem_singleton, exists_eq_left, hx, List.not_mem_nil, or_false]
  constructor
  · rintro ⟨h, rfl⟩
    exact ⟨rfl, h⟩
  · rintro ⟨rfl, h⟩
    exact ⟨h, rfl⟩

lemma read : s.Touches [.read v r] [v] [] := named trivial fun _ => Iff.rfl

lemma write {src : Operand} : s.Touches [.write src v] [v] [] := named trivial fun _ => Iff.rfl

lemma compute {x y : Operand} (hop : op ∉ "la" :: memoryOps) :
    s.Touches [.compute op v x y] [v] [] := named hop fun _ => Iff.rfl

/-- A name that is not shared does not count. -/
lemma unshared (hv : ¬ s.program.isGlobal v = true) (h : s.Touches as [] []) :
    s.Touches as [v] [] :=
  h.congr fun x hx => by simpa using fun he : x = v => hv (he ▸ hx)

lemma flatMap {α : Type} {xs : List α} {g : α → List Action} {vs bs : α → List String}
    (h : ∀ e ∈ xs, s.Touches (g e) (vs e) (bs e)) :
    s.Touches (xs.flatMap g) (xs.flatMap vs) (xs.flatMap bs) := by
  induction xs with
  | nil => exact nil
  | cons e xs ih => exact (h e (by simp)).append (ih fun e' he' => h e' (by simp [he']))

end Touches

lemma not_isGlobal_of_not_isIntVar (h : ¬ s.isIntVar v = true) : ¬ s.program.isGlobal v = true := by
  intro hg
  exact h (by simp [isIntVar, hg])

lemma touches_loaded {x : String} {isFloat : Bool} (hop : op ∉ "la" :: memoryOps) :
    s.Touches (Source.loaded op x r isFloat).actions [] [] := .emit hop .nil

lemma touches_intSource : s.Touches (s.intSource v r).actions [v] [] := by
  unfold intSource
  split
  · exact .read
  · next h => exact .unshared (not_isGlobal_of_not_isIntVar h) (touches_loaded (by decide))

lemma touches_plainSource {r' : String} : s.Touches (s.plainSource v r r').actions [v] [] := by
  unfold plainSource
  split
  · exact .read
  · next h =>
    split
    · exact .read
    · exact .unshared (not_isGlobal_of_not_isIntVar h) .nil

lemma touches_leftSource : s.Touches (s.leftSource v).actions [v] [] := by
  unfold leftSource
  split
  · exact .read
  · next h =>
    split
    · exact .read
    · split <;> exact .unshared (not_isGlobal_of_not_isIntVar h) (touches_loaded (by decide))

lemma touches_rightSource : s.Touches (s.rightSource v).actions [v] [] := by
  unfold rightSource
  split
  · exact .read
  · next h =>
    split
    · exact .read
    · split
      · exact .unshared (not_isGlobal_of_not_isIntVar h) (touches_loaded (by decide))
      · exact .unshared (not_isGlobal_of_not_isIntVar h) .nil

lemma touches_lowerArrayInit (h : Text.integer? i.arg2.toList ≠ none) :
    s.Touches (s.lowerArrayInit i) [i.arg3] [i.arg1] := by
  unfold lowerArrayInit
  cases hn : Text.integer? i.arg2.toList with
  | none => exact absurd hn h
  | some n =>
    refine .la ?_
    have hstores : s.Touches ((List.range n.toNat).map fun k =>
        .emit "sw" [(s.intSource i.arg3 t1).operand, .text (address (wordSize * k : Nat) t0)] none)
        [] [] := by
      generalize List.range n.toNat = ks
      induction ks with
      | nil => exact .nil
      | cons k ks ih => exact .memory (by decide) rfl ih
    exact touches_intSource.quiet hstores

lemma touches_lowerArith (op : Arith) :
    s.Touches (s.lowerArith op i) [i.arg1, i.arg2, i.arg3] [] := by
  have hop : ∀ isFloat : Bool,
      op.mnemonic ++ (if isFloat then ".s" else "") ∉ "la" :: memoryOps := by
    cases op <;> decide
  exact (touches_leftSource.append touches_rightSource).append (.compute (hop _))

lemma touches_lowerBranch (cmp : Comparison) :
    s.Touches (s.lowerBranch cmp i) [i.arg1, i.arg2] [] := by
  have hop : cmp.mnemonic ∉ "la" :: memoryOps := by cases cmp <;> decide
  have hright : s.Touches
      (if s.isIntVar i.arg2 then Source.var i.arg2 t1 false else .literal i.arg2).actions
      [i.arg2] [] := by
    split
    · exact .read
    · next h => exact .unshared (not_isGlobal_of_not_isIntVar h) .nil
  exact (touches_intSource.append hright).quiet (.emit hop .nil)

lemma not_isGlobal_empty : ¬ s.program.isGlobal "" = true := by simp [Program.isGlobal]

lemma touches_lowerReturn : s.Touches (s.lowerReturn i) [i.arg1] [] := by
  have hresult : s.Touches (s.lowerResult i.arg1) [i.arg1] [] := by
    unfold lowerResult
    split
    · next h => exact .unshared (h ▸ not_isGlobal_empty) .nil
    · split
      · exact .read
      · next h =>
        split
        · exact .read
        · exact .unshared (not_isGlobal_of_not_isIntVar h) (.emit (by decide) .nil)
  exact hresult.quiet (.memory (by decide) rfl (.emit (by decide) (.emit (by decide) .nil)))

lemma touches_lowerArgument {isFloat : Bool} :
    s.Touches (s.lowerArgument v r isFloat) [v] [] := by
  unfold lowerArgument
  split
  · next h => exact .unshared (h ▸ not_isGlobal_empty) .nil
  · split
    · exact .read
    · next h =>
      rw [Bool.or_eq_true, not_or] at h
      exact .unshared h.2 (.emit (by cases isFloat <;> decide) .nil)

lemma touches_lowerCall {name x y : String} : s.Touches (s.lowerCall n name x y) [x, y] [] := by
  refine (touches_lowerArgument.append touches_lowerArgument).quiet ?_
  split
  · exact .emit (by decide) (.emit (by decide) .nil)
  · exact .silent (.emit (by decide) (.silent .nil trivial fun _ => id)) trivial fun _ => id

lemma touches_elementAddress {index scratch : String} :
    s.Touches (s.elementAddress array index scratch) [index] [array] :=
  touches_intSource.append (.emit (by decide) (.la (.emit (by decide) .nil)))

/-- An instruction with which nothing is wrong addresses the shared variables and the array that it
names. -/
lemma touches_lowerInstruction (n : Nat) (h : s.offence? i = none) :
    s.Touches (s.lowerInstruction n i) i.valueNames i.arrayNames := by
  obtain ⟨op, x, y, z, label⟩ := i
  cases op with
  | assign =>
    by_cases hz : z = ""
    · simp only [lowerInstruction, Instruction.valueNames, Instruction.arrayNames,
        Instruction.arrayUse?, hz, if_true]
      exact touches_plainSource.append .write
    · simp only [lowerInstruction, Instruction.valueNames, Instruction.arrayNames,
        Instruction.arrayUse?, hz, if_false]
      refine touches_lowerArrayInit ?_
      simpa [offence?, hz] using h
  | arith op => exact touches_lowerArith op
  | goto => exact .emit (by decide) .nil
  | branch cmp => exact touches_lowerBranch cmp
  | ret => exact touches_lowerReturn
  | call => exact touches_lowerCall
  | callr =>
    refine (touches_lowerCall.append .write).congr fun v hv => ?_
    have hne : v ≠ "" := fun he => not_isGlobal_empty (he ▸ hv)
    simp [Instruction.valueNames, hne]
  | arrayStore =>
    simp only [lowerInstruction, lowerArrayStore, List.cons_append, List.append_assoc]
    refine .silent (touches_intSource.append (touches_elementAddress.append ?_)) trivial fun _ => id
    exact .memory (by decide) rfl (.silent .nil trivial fun _ => id)
  | arrayLoad =>
    refine .silent (touches_elementAddress.append ?_) trivial fun _ => id
    refine .memory (by decide) rfl (Touches.write.append (.silent .nil trivial fun _ => id))
  | other k => cases h

lemma touches_lowerIn (b : Block) (n : Nat) (h : s.offence? i = none) :
    s.Touches (s.lowerIn b n i) i.valueNames i.arrayNames := by
  unfold lowerIn
  split
  · exact (touches_lowerInstruction n h).silent trivial fun _ => id
  · exact touches_lowerInstruction n h

lemma touches_lowerBlock (b : Block) (h : ∀ i ∈ b.body, s.offence? i = none) :
    s.Touches (s.lowerBlock b) (b.body.flatMap Instruction.valueNames)
      (b.body.flatMap Instruction.arrayNames) := by
  have hlabel : s.Touches (s.lowerLabel b) [] [] := by
    unfold lowerLabel
    cases b.label with
    | none => exact .nil
    | some l =>
      dsimp only
      split
      · exact .nil
      · exact .silent .nil trivial fun _ => id
  have hexit : s.Touches (if b.last?.any Instruction.isTerminal then [] else [.exitBlock b])
      [] [] := by
    split
    · exact .nil
    · exact .silent .nil trivial fun _ => id
  have hbody : s.Touches (b.positioned.flatMap fun x => s.lowerIn b x.1 x.2)
      (b.positioned.flatMap fun x => x.2.valueNames)
      (b.positioned.flatMap fun x => x.2.arrayNames) := by
    refine .flatMap fun x hx => touches_lowerIn b x.1 (h x.2 ?_)
    rw [← b.map_snd_positioned]
    exact List.mem_map_of_mem hx
  have hcode : ∀ g : Instruction → List String,
      (b.positioned.flatMap fun x => g x.2) = b.body.flatMap g := fun g => by
    rw [← b.map_snd_positioned, List.flatMap_map]
  rw [hcode, hcode] at hbody
  rw [lowerBlock_eq]
  exact hlabel.append ((hbody.quiet hexit).silent (a := .enterBlock b) trivial fun _ => id)

lemma touches_lowerPrologue : s.Touches s.lowerPrologue s.function.params [] := by
  have hparams : s.Touches
      (s.function.params.zipIdx.flatMap fun x => [.write (.text (Register.arg x.2)) x.1])
      (s.function.params.zipIdx.flatMap fun x => [x.1])
      (s.function.params.zipIdx.flatMap fun _ => []) := .flatMap fun x _ => .write
  rw [← List.map_eq_flatMap, ← List.map_eq_flatMap, List.zipIdx_map_fst,
    List.flatMap_eq_nil_iff.mpr fun _ _ => rfl] at hparams
  exact .emit (by decide) (.memory (by decide) rfl hparams)

/-- A function with which nothing is wrong addresses the shared variables and the arrays that it
names. -/
lemma touches_lower (hf : s.function.Built) (h : s.firstOffence? = none) :
    s.Touches s.lower s.function.valueNames (s.function.code.flatMap Instruction.arrayNames) := by
  have hcode : ∀ i ∈ s.function.code, s.offence? i = none := by
    rw [firstOffence?, Option.or_eq_none_iff] at h
    exact List.findSome?_eq_none_iff.mp h.2
  have hblocks : s.Touches (s.function.blocks.flatMap s.lowerBlock)
      (s.function.blocks.flatMap fun b => b.body.flatMap Instruction.valueNames)
      (s.function.blocks.flatMap fun b => b.body.flatMap Instruction.arrayNames) := by
    refine .flatMap fun b hb => touches_lowerBlock b fun i hi => hcode i ?_
    rw [← hf.code]
    exact List.mem_flatMap.mpr ⟨b, hb, hi⟩
  rw [← List.flatMap_assoc, ← List.flatMap_assoc, hf.code, ← hf.walk_eq] at hblocks
  exact (touches_lowerPrologue.append hblocks).silent (a := .enterFunction) trivial fun _ => id

end Scope

/-! ### What is stored -/

lemma mem_keys_foldl_widenArray {us : List (String × Int)} {m : NameMap Int} {x : String} :
    x ∈ (us.foldl widenArray m).keys ↔ x ∈ m.keys ∨ x ∈ us.map Prod.fst := by
  induction us generalizing m with
  | nil => simp
  | cons u us ih =>
    rw [List.foldl_cons, ih, widenArray, OrdMap.alter, OrdMap.keys_insert, OrdSet.mem_insert,
      List.map_cons, List.mem_cons, or_comm (a := x = u.1), or_assoc]

/-- What the code of a function uses as an array is one. -/
lemma FunctionDef.isArray_of_build {d : FunctionDef} {f : Function} {x : String}
    (hf : d.build = .ok f) (hx : x ∈ f.code.flatMap Instruction.arrayNames) :
    f.isArray x = true := by
  obtain ⟨blocks, -, rfl⟩ := exists_of_build hf
  obtain ⟨i, hi, hx⟩ := List.mem_flatMap.mp hx
  obtain ⟨u, hu, rfl⟩ := Option.map_eq_some_iff.mp (Option.mem_toList.mp hx)
  refine OrdMap.contains_iff.mpr (mem_keys_foldl_widenArray.mpr (Or.inr ?_))
  exact List.mem_map_of_mem (List.mem_filterMap.mpr ⟨i, hi, hu⟩)

namespace Program
variable {p : Program} {g : Strategy} {x : String}

lemma mem_arrayNames {f : Function} : x ∈ arrayNames f ↔ f.isArray x = true := by
  have hkeys : x ∈ f.arrays.keys.toList ↔ f.isArray x = true := OrdMap.contains_iff.symm
  have hints : x ∈ f.ints ↔ f.isInt x = true := List.contains_iff_mem.symm
  rw [arrayNames, List.mem_append, List.mem_filter, List.mem_filter, hkeys, hints]
  cases f.isInt x <;> simp

lemma mem_arrays : x ∈ p.arrays.map ArraySymbol.name ↔
    ∃ f ∈ p.functions, f.isArray x = true := by
  simp [names_arrays, mem_arrayNames]

lemma mem_globalInts : x ∈ p.globalInts ↔ p.isGlobal x = true ∧
    (∃ f ∈ p.functions, f.isInt x = true) ∧ ¬ ∃ f ∈ p.functions, f.isArray x = true := by
  simp [globalInts, isArray, FunctionDef.isInt]
  tauto

/-- The data section has the shared names that a function declares as integers, and the arrays. -/
lemma mem_dataSymbols : x ∈ p.dataSymbols ↔
    p.isGlobal x = true ∧ (∃ f ∈ p.functions, f.isInt x = true) ∨
      ∃ f ∈ p.functions, f.isArray x = true := by
  rw [dataSymbols, List.mem_append, mem_arrays, mem_globalInts]
  by_cases h : ∃ f ∈ p.functions, f.isArray x = true <;> simp [h]

end Program

section
variable {text : String} {p : Program} {g : Strategy} {a : Asm.Program}

/-- The lines of a function address the shared variables and the arrays that it names. -/
lemma addresses_functionEmission {d : FunctionDef} {f : Function} {x : String}
    (hd : d.build = .ok f) (hok : (p.functionEmission g f).failure = none) :
    (p.functionEmission g f).Addresses x ↔
      x ∈ f.valueNames ∧ p.isGlobal x = true ∨ x ∈ f.code.flatMap Instruction.arrayNames := by
  have hsound := g.sound_place ⟨p, f⟩
  have hlower := Scope.failsWith_lower (s := ⟨p, f⟩) (d.built_of_build hd)
  have hfirst : Scope.firstOffence? ⟨p, f⟩ = none :=
    hlower.first.symm.trans ((Placement.failure_run hsound hlower.reads).symm.trans hok)
  have htouches := Scope.touches_lower (s := ⟨p, f⟩) (d.built_of_build hd) hfirst
  exact (Placement.addresses_run hsound hlower.reads htouches.explicit hok).trans
    (htouches.symbols x)

lemma addresses_generate (hp : (readProgram text).result = .ok p) (ha : p.generate g = .ok a)
    {x : String} : (∃ f ∈ a.functions, ∃ l ∈ f.lines, l.Addresses x) ↔ ∃ f ∈ p.functions,
      x ∈ f.valueNames ∧ p.isGlobal x = true ∨ x ∈ f.code.flatMap Instruction.arrayNames := by
  obtain ⟨hfails, rfl⟩ := Program.generate_eq_ok_iff.mp ha
  simp only [List.mem_map, exists_exists_and_eq_and]
  refine exists_congr fun f => and_congr_right fun hf => ?_
  obtain ⟨d, hd, -⟩ := exists_build_of_readProgram hp hf
  exact addresses_functionEmission hd (hfails f hf)

/-- The code addresses a symbol that has no storage just if it is the name of a shared variable
that no function declares as an integer or uses as an array. -/
theorem addresses_unstored_iff (hp : (readProgram text).result = .ok p)
    (ha : p.generate g = .ok a) (x : String) :
    ((∃ f ∈ a.functions, ∃ l ∈ f.lines, l.Addresses x) ∧
        x ∉ a.globals ∧ x ∉ a.arrays.map ArraySymbol.name) ↔
      (∃ f ∈ p.functions, x ∈ f.valueNames) ∧ p.isGlobal x = true ∧
        ∀ f ∈ p.functions, f.isInt x = false ∧ f.isArray x = false := by
  have hstored : (x ∉ a.globals ∧ x ∉ a.arrays.map ArraySymbol.name) ↔
      ¬ (p.isGlobal x = true ∧ (∃ f ∈ p.functions, f.isInt x = true)) ∧
        ¬ ∃ f ∈ p.functions, f.isArray x = true := by
    obtain ⟨-, rfl⟩ := Program.generate_eq_ok_iff.mp ha
    rw [← not_or, ← List.mem_append, ← not_or, ← Program.mem_dataSymbols]
    rfl
  rw [addresses_generate hp ha, hstored]
  constructor
  · rintro ⟨⟨f, hf, ⟨hv, hg⟩ | hx⟩, hints, harrays⟩
    · refine ⟨⟨f, hf, hv⟩, hg, fun h hh => ⟨?_, ?_⟩⟩
      · exact Bool.eq_false_iff.mpr fun hi => hints ⟨hg, h, hh, hi⟩
      · exact Bool.eq_false_iff.mpr fun hi => harrays ⟨h, hh, hi⟩
    · -- An array that the code uses is always stored.
      obtain ⟨d, hd, -⟩ := exists_build_of_readProgram hp hf
      exact absurd ⟨f, hf, d.isArray_of_build hd hx⟩ harrays
  · rintro ⟨⟨f, hf, hv⟩, hg, hnone⟩
    refine ⟨⟨f, hf, Or.inl ⟨hv, hg⟩⟩, ?_, ?_⟩
    · rintro ⟨-, h, hh, hi⟩
      exact absurd hi (by simp [(hnone h hh).1])
    · rintro ⟨h, hh, hi⟩
      exact absurd hi (by simp [(hnone h hh).2])

end

/-- A function that sets a variable. -/
def setter (name : String) (ints floats : List String) : FunctionDef where
  name := name
  ints := ints
  floats := floats
  code := [{ op := .assign, arg1 := "x", arg2 := "1" }, { op := .ret }]

def setterLines (name keyword : String) : List String :=
  ["#start_function ", name, "\nint ", name, "()\n", keyword,
    ": x\nassign, x, 1\nreturn\n#end_function\n"]

/-- Two such functions, which declare their variables in the same way. -/
def setters (ints floats : List String) : Program :=
  .ofFunctions (["f", "g"].filterMap fun name => (setter name ints floats).build.toOption)

def settersLines (keyword : String) : List String :=
  setterLines "f" keyword ++ setterLines "g" keyword

def settersText (keyword : String) : String :=
  String.ofList ((settersLines keyword).flatMap String.toList)

lemma toList_settersText (keyword : String) : (settersText keyword).toList =
    (settersLines keyword).flatMap String.toList := String.toList_ofList

/-- The shared integer is addressed by its symbol, and what is addressed has storage. -/
theorem addresses_stored_setters :
    (readProgram (settersText "int-list")).result = .ok (setters ["x"] []) ∧
    ∃ a, (setters ["x"] []).generate (.perFunction 8) = .ok a ∧
      (∃ f ∈ a.functions, ∃ l ∈ f.lines, l.Addresses "x") ∧
      ∀ x, (∃ f ∈ a.functions, ∃ l ∈ f.lines, l.Addresses x) →
        x ∈ a.globals ∨ x ∈ a.arrays.map ArraySymbol.name := by
  have hread : (readProgram (settersText "int-list")).result = .ok (setters ["x"] []) := by
    rw [readProgram, toList_settersText]
    decide +kernel
  have hgen := Program.generate_eq_ok_iff.mpr
    ⟨(by decide +kernel : ∀ f ∈ (setters ["x"] []).functions,
      ((setters ["x"] []).functionEmission (.perFunction 8) f).failure = none), rfl⟩
  refine ⟨hread, _, hgen, (addresses_generate hread hgen).mpr (by decide +kernel), fun x hx => ?_⟩
  by_contra hnot
  obtain ⟨⟨f, hf, hv⟩, hg, hnone⟩ :=
    (addresses_unstored_iff hread hgen x).mp ⟨hx, not_or.mp hnot⟩
  have hint : ∀ f ∈ (setters ["x"] []).functions, ∀ v ∈ f.valueNames,
      (setters ["x"] []).isGlobal v = true → f.isInt v = true := by
    decide +kernel
  exact absurd (hint f hf x hv hg) (by simp [(hnone f hf).1])

/-- The shared float is addressed by its symbol and has no storage. -/
theorem shared_float_unstored :
    (readProgram (settersText "float-list")).result = .ok (setters [] ["x"]) ∧
    ∃ a, (setters [] ["x"]).generate .memory = .ok a ∧
      (∃ f ∈ a.functions, ∃ l ∈ f.lines, l.Addresses "x") ∧
        "x" ∉ a.globals ∧ "x" ∉ a.arrays.map ArraySymbol.name := by
  have hread : (readProgram (settersText "float-list")).result = .ok (setters [] ["x"]) := by
    rw [readProgram, toList_settersText]
    decide +kernel
  have hgen := Program.generate_eq_ok_iff.mpr
    ⟨(by decide +kernel : ∀ f ∈ (setters [] ["x"]).functions,
      ((setters [] ["x"]).functionEmission .memory f).failure = none), rfl⟩
  exact ⟨hread, _, hgen, (addresses_generate hread hgen).mpr (by decide +kernel),
    by decide +kernel, by decide +kernel⟩

end MipsBackend
