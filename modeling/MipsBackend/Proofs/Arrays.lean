import Mathlib.Order.Bounds.Basic
import MipsBackend.Proofs.Pieces
import MipsBackend.Proofs.Storage

/-! Arrays. The storage of an array is as large as the largest need of any function, and so covers
every word that code initialises. -/
namespace MipsBackend
open Asm Asm.Register

/-! ### Sizes -/

section
variable {us : List (String × Int)} {u : String × Int} {m : NameMap Int} {x : String} {n : Int}

lemma le_widenArray (h : m.get? x = some n) : ∃ n', (widenArray m u).get? x = some n' ∧ n ≤ n' := by
  rw [widenArray, OrdMap.get?_alter]
  by_cases hx : x = u.1
  · subst hx
    rw [if_pos rfl, OrdMap.getD, h]
    exact ⟨_, rfl, le_max_left _ _⟩
  · rw [if_neg hx]
    exact ⟨n, h, le_rfl⟩

lemma le_foldl_widenArray (us : List (String × Int)) (h : m.get? x = some n) :
    ∃ n', (us.foldl widenArray m).get? x = some n' ∧ n ≤ n' := by
  induction us generalizing m n with
  | nil => exact ⟨n, h, le_rfl⟩
  | cons u us ih =>
    obtain ⟨k, hk, hle⟩ := le_widenArray (u := u) h
    obtain ⟨n', hn', hle'⟩ := ih hk
    exact ⟨n', hn', hle.trans hle'⟩

/-- Every use of an array is covered. -/
lemma mem_le_foldl_widenArray (hu : u ∈ us) :
    ∃ n, (us.foldl widenArray m).get? u.1 = some n ∧ u.2 ≤ n := by
  induction us generalizing m with
  | nil => cases hu
  | cons u' us ih =>
    rcases List.mem_cons.mp hu with rfl | hu
    · have hfirst : (widenArray m u).get? u.1 = some (max (m.getD u.1 0) u.2) := by
        rw [widenArray, OrdMap.get?_alter, if_pos rfl]
      obtain ⟨n, hn, hle⟩ := le_foldl_widenArray us hfirst
      exact ⟨n, hn, (le_max_right _ _).trans hle⟩
    · exact ih hu

end

lemma FunctionDef.le_of_arrayUse? {d : FunctionDef} {f : Function} {i : Instruction}
    {u : String × Int} (hd : d.build = .ok f) (hi : i ∈ f.code) (hu : i.arrayUse? = some u) :
    ∃ n, f.arrays.get? u.1 = some n ∧ u.2 ≤ n := by
  obtain ⟨blocks, -, rfl⟩ := exists_of_build hd
  exact mem_le_foldl_widenArray (List.mem_filterMap.mpr ⟨i, hi, hu⟩)

namespace Program
variable {p : Program} {f : Function} {x : String} {n : Int}

lemma mem_arrayUses : ⟨x, n⟩ ∈ p.arrayUses ↔ ∃ f ∈ p.functions, f.arrays.get? x = some n := by
  simp only [arrayUses, List.mem_flatMap, List.mem_map, ArraySymbol.mk.injEq]
  refine exists_congr fun f => and_congr_right fun _ => ?_
  constructor
  · rintro ⟨v, hv, rfl, rfl⟩
    obtain ⟨k, hk⟩ := Option.isSome_iff_exists.mp (mem_arrayNames.mp hv)
    rw [OrdMap.getD, hk, Option.getD_some]
  · intro hn
    exact ⟨x, mem_arrayNames.mpr (Option.isSome_iff_exists.mpr ⟨n, hn⟩), rfl, by
      rw [OrdMap.getD, hn, Option.getD_some]⟩

/-- An array has as many words as the most demanding function needs. -/
lemma isGreatest_words {s : ArraySymbol} (h : s ∈ p.arrays) :
    IsGreatest {n | ∃ f ∈ p.functions, f.arrays.get? s.name = some n} s.words := by
  have hsizes : sizes p.arrayUses s.name = {n | ∃ f ∈ p.functions, f.arrays.get? s.name = some n} :=
    Set.ext fun n => mem_arrayUses
  exact hsizes ▸ p.lists_arrays.words s h

end Program

namespace Asm

/-- There is storage for at least so many words of an array. -/
def Program.Reserves (a : Asm.Program) (x : String) (n : Int) : Prop :=
  ∃ s ∈ a.arrays, s.name = x ∧ n ≤ s.words

/-- Lines that take the address of an array and then store to its words from 0 up to `n`. -/
def FillsArray (x : String) (n : Int) (ls : List Line) : Prop :=
  ∃ rest, ls = .instr "la" [t0, x] none :: rest ∧
    ∀ m : Int, (∃ src note, Line.instr "sw" [src, address m t0] note ∈ rest) ↔
      ∃ k : Int, 0 ≤ k ∧ k < n ∧ m = wordSize * k

end Asm

/-! ### Lines -/

namespace Placement
variable {q : Placement} {c : Cache} {a : Action} {as : List Action} {i : Instruction}
  {args : List String} {note : Option String}

lemma emission_subset_run (h : (q.run c as).failure = none) (ha : a ∈ as) :
    ∃ d, (q.emission d a).lines ⊆ (q.run c as).lines := by
  induction as generalizing c with
  | nil => cases ha
  | cons b as ih =>
    obtain ⟨hfirst, hrest⟩ := Emission.failure_andThen.mp h
    rw [run, Emission.lines_andThen hfirst]
    rcases List.mem_cons.mp ha with rfl | ha
    · exact ⟨c, List.subset_append_left _ _⟩
    · obtain ⟨d, hd⟩ := ih hrest ha
      exact ⟨d, List.subset_append_of_subset_right _ hd⟩

/-- Making an integer ready stores nothing. -/
lemma not_store_of_mem_intSource {v r : String} (ha : a ∈ (q.intSource v r).actions) :
    .instr "sw" args note ∉ (q.emission c a).lines := by
  intro hl
  unfold Scope.intSource at ha
  split at ha
  · obtain rfl := List.mem_singleton.mp ha
    rw [emission] at hl
    split at hl
    · unfold Scope.load at hl
      split at hl
      · cases hl
      · simp only [notedLine, List.mem_singleton, Line.instr.injEq] at hl
        split at hl <;> simp at hl
    · split at hl
      · simp [notedLine] at hl
      · cases hl
  · obtain rfl := List.mem_singleton.mp ha
    simp [emission, Action.line] at hl

/-- An array is initialised from its first word on. -/
lemma fillsArray_lowerArrayInit (h : (q.run c (q.lowerArrayInit i)).failure = none) :
    ∃ n, Text.integer? i.arg2.toList = some n ∧
      FillsArray i.arg1 n (q.run c (q.lowerArrayInit i)).lines := by
  unfold Scope.lowerArrayInit at h ⊢
  cases hn : Text.integer? i.arg2.toList with
  | none =>
    rw [hn] at h
    cases h
  | some n =>
    rw [hn] at h
    dsimp only at h ⊢
    rw [List.cons_append] at h ⊢
    obtain ⟨hfirst, hrest⟩ := Emission.failure_andThen.mp h
    refine ⟨n, rfl, _, Emission.lines_andThen hfirst, fun m => ?_⟩
    constructor
    · -- the value to store is made ready before, and then there is one store for each word
      rintro ⟨src, note, hl⟩
      obtain ⟨a, ha, d, hl⟩ := mem_lines_run hl
      rcases List.mem_append.mp ha with ha | ha
      · exact absurd hl (not_store_of_mem_intSource ha)
      · obtain ⟨k, hk, rfl⟩ := List.mem_map.mp ha
        have hk := List.mem_range.mp hk
        simp only [emission, List.map_cons, List.map_nil, List.mem_singleton, Line.instr.injEq,
          List.cons.injEq, Cache.resolve] at hl
        have hm := address_injective hl.2.1.2.1
        exact ⟨k, by omega, by omega, hm.trans (Int.natCast_mul wordSize k)⟩
    · rintro ⟨k, hk, hkn, rfl⟩
      lift k to Nat using hk
      have hk : k ∈ List.range n.toNat := List.mem_range.mpr (by omega)
      obtain ⟨d, hd⟩ :=
        emission_subset_run hrest (List.mem_append_right _ (List.mem_map_of_mem hk))
      exact ⟨_, _, hd (List.mem_singleton.mpr rfl)⟩

end Placement

namespace Program
variable {fs : List Function} {g : Strategy} {a : Asm.Program} {f : Function} {i : Instruction}
  {x : String}

/-- What an instruction needs of an array has storage. -/
lemma reserves_of_arrayUse? {d : FunctionDef} {u : String × Int} (hf : f ∈ fs)
    (hd : d.build = .ok f) (ha : (ofFunctions fs).generate g = .ok a) (hi : i ∈ f.code)
    (hu : i.arrayUse? = some u) : a.Reserves u.1 u.2 := by
  obtain ⟨n, hn, hle⟩ := d.le_of_arrayUse? hd hi hu
  have harray : ∃ f ∈ (ofFunctions fs).functions, f.isArray u.1 = true :=
    ⟨f, hf, Option.isSome_iff_exists.mpr ⟨n, hn⟩⟩
  obtain ⟨s, hs, hname⟩ := List.mem_map.mp (mem_arrays.mpr harray)
  obtain ⟨-, rfl⟩ := generate_eq_ok_iff.mp ha
  exact ⟨s, hs, hname, hle.trans ((isGreatest_words hs).2 ⟨f, hf, hname ▸ hn⟩)⟩

end Program

namespace Placement
variable {q : Placement} {y : Piece Line} {i : Instruction}

lemma fillsArray_of_mem_linePieces (hf : q.function.Built) (h : (q.run {} q.lower).failure = none)
    (hy : y ∈ q.linePieces) (hi : y.instruction? = some i) (hop : i.op = .assign)
    (hinit : i.arg3 ≠ "") : i ∈ q.function.code ∧
      ∃ n, Text.integer? i.arg2.toList = some n ∧ FillsArray i.arg1 n y.items := by
  obtain ⟨hmem, k, d, hok, hitems⟩ := of_mem_linePieces hf h hy hi
  have hlower : q.lowerInstruction k i = q.lowerArrayInit i := by
    rw [Scope.lowerInstruction, hop]
    exact if_neg hinit
  rw [hlower] at hok hitems
  rw [hitems]
  exact ⟨hmem, fillsArray_lowerArrayInit hok⟩

end Placement

/-- The arrays of a program of built functions are listed once each, with as many words as the
most demanding function needs. So they have storage for every word that an instruction
initialises, and for some word where an element is loaded or stored. -/
theorem array_storage_covers {fs : List Function} {g : Strategy} {a : Asm.Program}
    (hfs : ∀ f ∈ fs, ∃ d : FunctionDef, d.build = .ok f)
    (ha : (Program.ofFunctions fs).generate g = .ok a) :
    (a.arrays.map ArraySymbol.name).Nodup ∧
    (∀ x, x ∈ a.arrays.map ArraySymbol.name ↔ ∃ f ∈ fs, f.isArray x = true) ∧
    (∀ s ∈ a.arrays, IsGreatest {n | ∃ f ∈ fs, f.arrays.get? s.name = some n} s.words) ∧
    a.functions.map Asm.Function.lines = fs.map (fun f =>
      (g.place ⟨.ofFunctions fs, f⟩).linePieces.flatMap Piece.items) ∧
    ∀ f ∈ fs, (g.place ⟨.ofFunctions fs, f⟩).linePieces.filterMap Piece.instruction? = f.code ∧
      (∀ x ∈ (g.place ⟨.ofFunctions fs, f⟩).linePieces, ∀ i, x.instruction? = some i →
        i.op = .assign → i.arg3 ≠ "" → ∃ n, Text.integer? i.arg2.toList = some n ∧
          FillsArray i.arg1 n x.items ∧ a.Reserves i.arg1 n) ∧
      ∀ i ∈ f.code, (i.op = .arrayStore → a.Reserves i.arg1 1) ∧
        (i.op = .arrayLoad → a.Reserves i.arg2 1) := by
  obtain ⟨hok, hareq⟩ := Program.generate_eq_ok_iff.mp ha
  have harrays : a.arrays = (Program.ofFunctions fs).arrays := by rw [hareq]
  refine ⟨?_, fun x => ?_, fun s hs => ?_, ?_, fun f hf => ?_⟩
  · rw [harrays]
    exact (Program.nodup_dataSymbols _).of_append_right
  · rw [harrays]
    exact Program.mem_arrays
  · rw [harrays] at hs
    exact Program.isGreatest_words hs
  · rw [hareq, List.map_map]
    exact List.map_congr_left fun f hf => (Placement.items_linePieces (hok f hf)).symm
  · obtain ⟨d, hd⟩ := hfs f hf
    have hbuilt := d.built_of_build hd
    refine ⟨Placement.instructions_linePieces hbuilt, fun x hx i hi hop hinit => ?_,
      fun i hi => ⟨fun hop => ?_, fun hop => ?_⟩⟩
    · obtain ⟨hmem, n, hn, hfills⟩ :=
        Placement.fillsArray_of_mem_linePieces hbuilt (hok f hf) hx hi hop hinit
      have huse : i.arrayUse? = some (i.arg1, max 1 n) := by
        simp [Instruction.arrayUse?, hop, hinit, hn]
      obtain ⟨s, hs, hname, hle⟩ := Program.reserves_of_arrayUse? hf hd ha hmem huse
      exact ⟨n, hn, hfills, s, hs, hname, (le_max_right 1 n).trans hle⟩
    · exact Program.reserves_of_arrayUse? hf hd ha hi (u := (i.arg1, 1))
        (by simp [Instruction.arrayUse?, hop])
    · exact Program.reserves_of_arrayUse? hf hd ha hi (u := (i.arg2, 1))
        (by simp [Instruction.arrayUse?, hop])

/-- A function that fills an array and then stores to its first element. -/
def filling (name length : String) : FunctionDef where
  name := name
  code := [
    { op := .assign, arg1 := "t", arg2 := length, arg3 := "0" },
    { op := .arrayStore, arg1 := "t", arg2 := "0", arg3 := "1" },
    { op := .ret }]

/-- Two functions that need different sizes of the same array. -/
def fillingFunctions : List Function :=
  [filling "f" "3", filling "g" "2"].filterMap fun d => d.build.toOption

/-- The array is as large as the first function needs it, and the second one fills a part. -/
theorem array_storage_covers_filling :
    (∀ f ∈ fillingFunctions, ∃ d : FunctionDef, d.build = .ok f) ∧
    ∃ a, (Program.ofFunctions fillingFunctions).generate (.perBlock 2) = .ok a ∧
      a.arrays = [⟨"t", 3⟩] ∧ ∃ f ∈ fillingFunctions, f.name = "g" ∧
        ∃ x ∈ ((Strategy.perBlock 2).place ⟨.ofFunctions fillingFunctions, f⟩).linePieces,
          FillsArray "t" 2 x.items ∧ a.Reserves "t" 2 := by
  have hbuilt : ∀ f ∈ fillingFunctions, ∃ d : FunctionDef, d.build = .ok f := by
    intro f hf
    obtain ⟨d, -, hd⟩ := List.mem_filterMap.mp hf
    refine ⟨d, ?_⟩
    cases hbuild : d.build <;> simp_all [Except.toOption]
  have hgen := Program.generate_eq_ok_iff.mpr
    ⟨(by decide +kernel : ∀ f ∈ (Program.ofFunctions fillingFunctions).functions,
      ((Program.ofFunctions fillingFunctions).functionEmission (.perBlock 2) f).failure = none),
      rfl⟩
  have hinit : ∃ f ∈ fillingFunctions, f.name = "g" ∧ ∃ i ∈ f.code, i.op = .assign ∧
      i.arg1 = "t" ∧ i.arg3 ≠ "" ∧ Text.integer? i.arg2.toList = some 2 := by
    decide +kernel
  obtain ⟨f, hf, hname, i, hi, hop, harray, harg, htwo⟩ := hinit
  obtain ⟨hcode, hfills, -⟩ := (array_storage_covers hbuilt hgen).2.2.2.2 f hf
  rw [← hcode] at hi
  obtain ⟨x, hx, hxi⟩ := List.mem_filterMap.mp hi
  obtain ⟨n, hn, hfills, hreserves⟩ := hfills x hx i hxi hop harg
  obtain rfl : n = 2 := Option.some.inj (hn.symm.trans htwo)
  rw [harray] at hfills hreserves
  exact ⟨hbuilt, _, hgen, by decide +kernel, f, hf, hname, x, hx, hfills, hreserves⟩

end MipsBackend
