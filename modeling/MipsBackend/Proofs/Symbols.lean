import Mathlib.Data.List.Induction
import Mathlib.Data.List.Nodup
import Mathlib.Order.Bounds.Basic
import MipsBackend.Proofs.Jumps

/-! Symbols of the printed program: variables and arrays in the data section, functions and labels
in the text section. Labels are printed as they stand in their function, so they share one space
with the labels of other functions and with the data. -/
namespace MipsBackend
open Asm

/-- The text of a line, with the label that it defines. -/
def Asm.Line.marked (l : Line) : String × Option String := (l.text, l.defines?)

namespace Asm.Program

/-- The lines of the data section, with the symbols that they define. -/
def markedData (a : Asm.Program) : List (String × Option String) :=
  if a.globals.isEmpty && a.arrays.isEmpty then []
  else (".data", none) :: a.globals.map (fun v => (v ++ ": .word 0", some v)) ++
    a.arrays.map fun v => (v.name ++ ": .space " ++ toString (spaceBytes v.words), some v.name)

def markedFunction (f : Asm.Function) : List (String × Option String) :=
  (f.name ++ ":", some f.name) :: f.lines.map Line.marked

/-- The lines of the printed program, with the symbols that they define. -/
def marked (a : Asm.Program) : List (String × Option String) :=
  a.markedData ++ (".text", none) :: a.functions.flatMap markedFunction

/-- Line `n` of the printed program defines a symbol. -/
def DefinesAt (a : Asm.Program) (n : Nat) (x : String) : Prop := a.marked[n]?.bind Prod.snd = some x

/-- No symbol is defined by two lines. -/
def DefinesOnce (a : Asm.Program) : Prop :=
  ∀ m n x, a.DefinesAt m x → a.DefinesAt n x → m = n

/-- One line of the printed program defines the label, and the lines of a block follow it. -/
def Resolves (a : Asm.Program) (l : String) (block : List Line) : Prop :=
  ∃ before after, a.textLines = before ++ (Line.label l).text :: (block.map Line.text ++ after) ∧
    ∀ n, a.DefinesAt n l ↔ n = before.length

lemma map_fst_markedData (a : Asm.Program) : a.markedData.map Prod.fst = a.dataLines := by
  unfold markedData dataLines
  split
  · rfl
  · simp [Function.comp_def]

lemma map_fst_marked (a : Asm.Program) : a.marked.map Prod.fst = a.textLines := by
  have hfunction : ∀ f, (markedFunction f).map Prod.fst = functionLines f := by
    intro f
    simp [markedFunction, functionLines, Line.marked]
  simp only [marked, textLines, List.map_append, List.map_cons, List.map_flatMap,
    map_fst_markedData, hfunction]

/-- The symbols in order. -/
def symbols (a : Asm.Program) : List String :=
  a.globals ++ a.arrays.map ArraySymbol.name ++
    a.functions.flatMap fun f => f.name :: f.lines.filterMap Line.defines?

lemma filterMap_snd_markedData (a : Asm.Program) :
    a.markedData.filterMap Prod.snd = a.globals ++ a.arrays.map ArraySymbol.name := by
  unfold markedData
  split
  · next h => simp_all
  · simp [List.filterMap_map]

lemma filterMap_snd_marked (a : Asm.Program) : a.marked.filterMap Prod.snd = a.symbols := by
  have hfunction : ∀ f, (markedFunction f).filterMap Prod.snd =
      f.name :: f.lines.filterMap Line.defines? := by
    intro f
    rw [markedFunction, List.filterMap_cons, List.filterMap_map]
    rfl
  simp only [marked, symbols, List.filterMap_append, List.filterMap_cons, List.filterMap_flatMap,
    filterMap_snd_markedData, hfunction]

lemma definesOnce_iff (a : Asm.Program) : a.DefinesOnce ↔ a.symbols.Nodup := by
  rw [← filterMap_snd_marked, List.Nodup, List.pairwise_filterMap, List.pairwise_iff_getElem]
  constructor
  · intro h m n hm hn hlt x hx y hy hxy
    have := h m n x (by simp [DefinesAt, hm, hx]) (by simp [DefinesAt, hn, hy, hxy])
    omega
  · intro h m n x hm hn
    rw [DefinesAt, Option.bind_eq_some_iff] at hm hn
    obtain ⟨e, he, hx⟩ := hm
    obtain ⟨e', he', hx'⟩ := hn
    obtain ⟨hm, rfl⟩ := List.getElem?_eq_some_iff.mp he
    obtain ⟨hn, rfl⟩ := List.getElem?_eq_some_iff.mp he'
    rcases Nat.lt_trichotomy m n with hlt | heq | hgt
    · exact absurd rfl (h m n hm hn hlt x hx x hx')
    · exact heq
    · exact absurd rfl (h n m hn hm hgt x hx' x hx)

lemma resolves {a : Asm.Program} {f : Asm.Function} {l : String} {block : List Line}
    (ha : a.DefinesOnce) (hf : f ∈ a.functions)
    (hlines : ∃ before after, f.lines = before ++ .label l :: (block ++ after)) :
    a.Resolves l block := by
  obtain ⟨before, after, hlines⟩ := hlines
  obtain ⟨fs, gs, hsplit⟩ := List.append_of_mem hf
  obtain ⟨pre, post, hmarked⟩ : ∃ pre post,
      a.marked = pre ++ (Line.label l).marked :: (block.map Line.marked ++ post) := by
    refine ⟨a.markedData ++ (".text", none) :: (fs.flatMap markedFunction ++
      (f.name ++ ":", some f.name) :: before.map Line.marked),
      after.map Line.marked ++ gs.flatMap markedFunction, ?_⟩
    simp [marked, hsplit, markedFunction, hlines]
  have hdefines : a.DefinesAt pre.length l := by
    rw [DefinesAt, hmarked, List.getElem?_append_right (Nat.le_refl _), Nat.sub_self]
    rfl
  refine ⟨pre.map Prod.fst, post.map Prod.fst, ?_, fun n => ?_⟩
  · rw [← map_fst_marked, hmarked]
    simp [Line.marked, Function.comp_def]
  · rw [List.length_map]
    constructor
    · exact fun hn => ha n pre.length l hn hdefines
    · rintro rfl
      exact hdefines

end Asm.Program

namespace Session
variable {s : Session} {fs : List Function} {as : List Asm.Function}

lemma generateAll_of_failure_eq_none (hs : s.draft = {})
    (h : ∀ f ∈ fs, (s.emissionOf f).failure = none) :
    s.generateAll fs = .ok (fs.map fun f => ⟨f.name, (s.emissionOf f).lines⟩) := by
  induction fs generalizing s with
  | nil => rfl
  | cons f fs ih =>
    have hf := generate_of_failure_eq_none hs (h f (by simp))
    have hfs := ih (s := s.after f) rfl fun e he => h e (by simp [he])
    simp only [generateAll, hf, hfs, List.map_cons]
    rfl

lemma generateAll_eq_ok (hs : s.draft = {}) (h : s.generateAll fs = .ok as) :
    (∀ f ∈ fs, (s.emissionOf f).failure = none) ∧
      as = fs.map fun f => ⟨f.name, (s.emissionOf f).lines⟩ := by
  induction fs generalizing s as with
  | nil =>
    cases h
    simp
  | cons f fs ih =>
    rw [generateAll] at h
    split at h
    · cases h
    · next t g hg =>
      obtain ⟨hfail, rfl, rfl⟩ := generate_eq_ok_iff.mp hg
      split at h
      · cases h
      · next gs hgs =>
        cases h
        obtain ⟨hfails, rfl⟩ := ih (s := s.after f) rfl hgs
        refine ⟨List.forall_mem_cons.mpr ⟨hfail, hfails⟩, ?_⟩
        rw [hs, List.map_cons, List.nil_append]
        rfl

end Session

namespace Program
variable {p : Program} {g : Strategy} {a : Asm.Program}

/-- The lines of a function. -/
def functionEmission (p : Program) (g : Strategy) (f : Function) : Emission :=
  Session.emissionOf { program := p, strategy := g } f

lemma generate_eq_ok_iff : p.generate g = .ok a ↔
    (∀ f ∈ p.functions, (p.functionEmission g f).failure = none) ∧
      a = { globals := p.globalInts, arrays := p.arrays,
            functions := p.functions.map fun f => ⟨f.name, (p.functionEmission g f).lines⟩ } := by
  constructor
  · intro h
    unfold generate at h
    split at h
    · cases h
    · next as has =>
      cases h
      obtain ⟨hfails, rfl⟩ := Session.generateAll_eq_ok rfl has
      exact ⟨hfails, rfl⟩
  · rintro ⟨hfails, rfl⟩
    rw [generate, Session.generateAll_of_failure_eq_none rfl hfails]
    rfl

/-- The sizes that are needed of an array. -/
def sizes (us : List ArraySymbol) (x : String) : Set Int := {n | ⟨x, n⟩ ∈ us}

lemma sizes_concat_self (us : List ArraySymbol) (a : ArraySymbol) :
    sizes (us ++ [a]) a.name = insert a.words (sizes us a.name) := by
  obtain ⟨x, n⟩ := a
  ext k
  simp [sizes, or_comm]

lemma sizes_concat_of_ne (us : List ArraySymbol) {a : ArraySymbol} {x : String} (h : x ≠ a.name) :
    sizes (us ++ [a]) x = sizes us x := by
  obtain ⟨y, n⟩ := a
  ext k
  simp [sizes, show x ≠ y from h]

/-- The arrays listed for the uses `us`: every one once, in the order of the first uses, and as
large as the most demanding use. -/
structure Lists (us out : List ArraySymbol) : Prop where
  names : out.map ArraySymbol.name = distinct (us.map ArraySymbol.name)
  words : ∀ s ∈ out, IsGreatest (sizes us s.name) s.words

lemma distinct_concat (xs : List String) (x : String) :
    distinct (xs ++ [x]) = if x ∈ xs then distinct xs else distinct xs ++ [x] := by
  induction xs with
  | nil => rfl
  | cons y ys ih =>
    rw [List.cons_append, distinct, ih, distinct]
    by_cases hy : x = y
    · subst hy
      split <;> simp
    · split <;> simp_all

lemma Lists.addArray {us out : List ArraySymbol} (h : Lists us out) (a : ArraySymbol) :
    Lists (us ++ [a]) (addArray out a) := by
  have hused : a.name ∈ us.map ArraySymbol.name ↔ a.name ∈ out.map ArraySymbol.name := by
    rw [h.names, mem_distinct]
  unfold Program.addArray
  split
  · next hany =>
    have hlisted : a.name ∈ out.map ArraySymbol.name := by simpa using hany
    refine ⟨?_, fun s hs => ?_⟩
    · rw [List.map_append, List.map_singleton, distinct_concat, if_pos (hused.mpr hlisted),
        ← h.names, List.map_map]
      refine List.map_congr_left fun b _ => ?_
      rw [Function.comp_apply]
      split <;> rfl
    · obtain ⟨b, hb, rfl⟩ := List.mem_map.mp hs
      split
      · next hname =>
        rw [hname, sizes_concat_self, max_comm, ← hname]
        exact (h.words b hb).insert a.words
      · next hname =>
        rw [sizes_concat_of_ne us hname]
        exact h.words b hb
  · next hany =>
    have hnew : a.name ∉ out.map ArraySymbol.name := by simpa using hany
    have hunused : sizes us a.name = ∅ := by
      refine Set.eq_empty_iff_forall_notMem.mpr fun n hn => hnew (hused.mp ?_)
      exact List.mem_map.mpr ⟨⟨a.name, n⟩, hn, rfl⟩
    refine ⟨?_, fun s hs => ?_⟩
    · rw [List.map_append, List.map_append, List.map_singleton, distinct_concat,
        if_neg (mt hused.mp hnew), h.names]
    · rcases List.mem_append.mp hs with hs | hs
      · have hname : s.name ≠ a.name := fun hname => hnew (hname ▸ List.mem_map_of_mem hs)
        rw [sizes_concat_of_ne us hname]
        exact h.words s hs
      · obtain rfl := List.mem_singleton.mp hs
        rw [sizes_concat_self, hunused, insert_empty_eq]
        exact isGreatest_singleton

lemma lists_arrays (p : Program) : Lists p.arrayUses p.arrays := by
  unfold arrays
  induction p.arrayUses using List.reverseRecOn with
  | nil => exact ⟨rfl, by simp⟩
  | append_singleton us a ih =>
    rw [List.foldl_append]
    exact ih.addArray a

lemma names_arrays (p : Program) :
    p.arrays.map ArraySymbol.name = distinct (p.functions.flatMap arrayNames) := by
  rw [p.lists_arrays.names]
  simp [arrayUses, Function.comp_def, List.map_flatMap]

/-- The symbols of the data section. -/
def dataSymbols (p : Program) : List String := p.globalInts ++ p.arrays.map ArraySymbol.name

lemma nodup_dataSymbols (p : Program) : p.dataSymbols.Nodup := by
  rw [dataSymbols, names_arrays, List.nodup_append']
  refine ⟨nodup_distinct _, nodup_distinct _, fun v hv hv' => ?_⟩
  have hnot : p.isArray v = false := by
    simp only [globalInts, mem_distinct, List.mem_filter, Bool.and_eq_true] at hv
    simpa using hv.2.2
  have his : p.isArray v = true := by
    rw [mem_distinct, List.mem_flatMap] at hv'
    obtain ⟨f, hf, hv'⟩ := hv'
    refine List.any_eq_true.mpr ⟨f, hf, ?_⟩
    rcases List.mem_append.mp hv' with hv' | hv'
    · exact (List.mem_filter.mp hv').2
    · exact OrdMap.contains_iff.mpr (List.mem_filter.mp hv').1
  rw [his] at hnot
  cases hnot

/-- What the names in a program must satisfy for its functions to be told apart. -/
structure NamesApart (p : Program) : Prop where
  functions : (p.functions.map (·.name)).Nodup
  labels : ∀ f ∈ p.functions, f.labels.Nodup
  data : ∀ f ∈ p.functions, f.name ∉ p.dataSymbols
  blocks : ∀ f ∈ p.functions, ∀ h ∈ p.functions, f.name ∉ h.labels

lemma NamesApart.nodup_iff (hp : p.NamesApart) :
    (p.dataSymbols ++ p.functions.flatMap fun f => f.name :: f.labels).Nodup ↔
      p.functions.Pairwise (fun f h => ∀ l ∈ f.labels, l ∉ h.labels) ∧
        ∀ f ∈ p.functions, ∀ l ∈ f.labels, l ∉ p.dataSymbols := by
  rw [List.nodup_append', List.nodup_flatMap]
  constructor
  · rintro ⟨-, ⟨-, hpair⟩, hdata⟩
    refine ⟨hpair.imp fun h => ?_, fun f hf x hx hd => ?_⟩
    · exact fun x hx hx' => h (List.mem_cons_of_mem _ hx) (List.mem_cons_of_mem _ hx')
    · exact hdata hd (List.mem_flatMap.mpr ⟨f, hf, List.mem_cons_of_mem _ hx⟩)
  · rintro ⟨hpair, hdata⟩
    refine ⟨p.nodup_dataSymbols, ⟨fun f hf => ?_, ?_⟩, fun x hd hx => ?_⟩
    · exact List.nodup_cons.mpr ⟨hp.blocks f hf f hf, hp.labels f hf⟩
    · have hnames := List.pairwise_map.mp hp.functions
      refine (hnames.and hpair).imp_of_mem fun {f h} hf hh hfh x hx hx' => ?_
      rcases List.mem_cons.mp hx with rfl | hx <;> rcases List.mem_cons.mp hx' with he | hx'
      · exact hfh.1 he
      · exact hp.blocks f hf h hh hx'
      · exact hp.blocks h hh f hf (he ▸ hx)
      · exact hfh.2 x hx hx'
    · obtain ⟨f, hf, hx⟩ := List.mem_flatMap.mp hx
      rcases List.mem_cons.mp hx with rfl | hx
      · exact hp.data f hf hd
      · exact hdata f hf x hx hd

end Program

section
variable {text : String} {p : Program} {g : Strategy} {a : Asm.Program}

lemma symbols_generate (hp : (readProgram text).result = .ok p) (hnames : p.NamesApart)
    (ha : p.generate g = .ok a) :
    a.symbols = p.dataSymbols ++ p.functions.flatMap fun f => f.name :: f.labels := by
  obtain ⟨hfails, rfl⟩ := Program.generate_eq_ok_iff.mp ha
  rw [Asm.Program.symbols, List.flatMap_map, Program.dataSymbols]
  congr 1
  refine List.flatMap_congr fun f hf => ?_
  obtain ⟨d, hd, -⟩ := exists_build_of_readProgram hp hf
  have hself : f.labels.filter (· ≠ f.name) = f.labels := by
    refine List.filter_eq_self.mpr fun l hl => ?_
    simpa using fun he : l = f.name => hnames.blocks f hf f hf (he ▸ hl)
  have hlabels := (Placement.defines_run (hfails f hf)).trans
    ((Scope.defines_lower (s := ⟨p, f⟩) (d.linked_of_build hd)).trans hself)
  exact congrArg (f.name :: ·) hlabels

/-- The printed program defines every symbol once just if no label stands in two functions and
none is the name of a global variable or an array. A jump then goes to a block of its own function,
the one that its own block leads to. -/
theorem definesOnce_iff_labels_apart (hp : (readProgram text).result = .ok p)
    (hnames : p.NamesApart) (ha : p.generate g = .ok a) :
    (a.DefinesOnce ↔ p.functions.Pairwise (fun f h => ∀ l ∈ f.labels, l ∉ h.labels) ∧
      ∀ f ∈ p.functions, ∀ l ∈ f.labels, l ∉ p.dataSymbols) ∧
    (a.DefinesOnce → ∀ f ∈ p.functions, ∀ e ∈ a.functions, e.name = f.name →
      ∀ ln ∈ e.lines, ∀ l, ln.target? = some l →
        ∃ c ∈ f.blocks, c.target? = some l ∧ ∃ b ∈ f.blocks, b.label = some l ∧ b.id ∈ c.succs ∧
          a.Resolves l ((g.place ⟨p, f⟩).blockLines b)) := by
  constructor
  · rw [Asm.Program.definesOnce_iff, symbols_generate hp hnames ha, hnames.nodup_iff]
  · intro honce f hf e he hname ln hln l hl
    obtain ⟨d, hd, -⟩ := exists_build_of_readProgram hp hf
    obtain ⟨hfails, rfl⟩ := Program.generate_eq_ok_iff.mp ha
    obtain ⟨f', hf', rfl⟩ := List.mem_map.mp he
    obtain rfl : f' = f := List.inj_on_of_nodup_map hnames.functions hf' hf hname
    have hlinked := d.linked_of_build hd
    obtain ⟨c, hc, hct, b, hb, hlabel, hsucc⟩ :=
      Placement.exists_link (q := g.place ⟨p, f'⟩) hlinked hln hl
    have hmem := hlinked.mem_labels hb hlabel
    have hne : l ≠ f'.name := fun h => hnames.blocks f' hf f' hf (h ▸ hmem)
    exact ⟨c, hc, hct, b, hb, hlabel, hsucc, Asm.Program.resolves honce he
      (Placement.lines_lower (q := g.place ⟨p, f'⟩) hlinked.toBuilt (hfails f' hf) hb hlabel hne)⟩

end

/-- A function that jumps to a label on its only instruction. -/
def spin (name label : String) : FunctionDef where
  name := name
  code := [{ op := .goto, arg1 := label, label := some label }]

def spinLines (name label : String) : List String :=
  ["#start_function ", name, "\nint ", name, "()\n", label, ":\ngoto, ", label,
    "\n#end_function\n"]

/-- Two such functions, with their labels. -/
def spins (first second : String) : Program :=
  .ofFunctions ([spin "f" first, spin "g" second].filterMap fun d => d.build.toOption)

def spinsLines (first second : String) : List String :=
  spinLines "f" first ++ spinLines "g" second

def spinsText (first second : String) : String :=
  String.ofList ((spinsLines first second).flatMap String.toList)

lemma toList_spinsText (first second : String) : (spinsText first second).toList =
    (spinsLines first second).flatMap String.toList := String.toList_ofList

/-- With different labels the jump of the second function goes to its own block. -/
theorem definesOnce_spins : (readProgram (spinsText "loop" "again")).result =
      .ok (spins "loop" "again") ∧ (spins "loop" "again").NamesApart ∧
    ∃ a, (spins "loop" "again").generate (.perBlock 2) = .ok a ∧ a.DefinesOnce ∧
      ∃ f ∈ (spins "loop" "again").functions, f.name = "g" ∧
        ∃ b ∈ f.blocks, b.label = some "again" ∧ a.Resolves "again"
          (((Strategy.perBlock 2).place ⟨spins "loop" "again", f⟩).blockLines b) := by
  have hread : (readProgram (spinsText "loop" "again")).result = .ok (spins "loop" "again") := by
    rw [readProgram, toList_spinsText]
    decide +kernel
  have hnames : (spins "loop" "again").NamesApart :=
    ⟨by decide +kernel, by decide +kernel, by decide +kernel, by decide +kernel⟩
  have hgen := Program.generate_eq_ok_iff.mpr
    ⟨(by decide +kernel : ∀ f ∈ (spins "loop" "again").functions,
      ((spins "loop" "again").functionEmission (.perBlock 2) f).failure = none), rfl⟩
  obtain ⟨honce, hjumps⟩ := definesOnce_iff_labels_apart hread hnames hgen
  have honce := honce.mpr ⟨by decide +kernel, by decide +kernel⟩
  obtain ⟨f, hf, hname, ln, hln, hl⟩ : ∃ f ∈ (spins "loop" "again").functions, f.name = "g" ∧
      ∃ ln ∈ ((spins "loop" "again").functionEmission (.perBlock 2) f).lines,
        ln.target? = some "again" := by
    decide +kernel
  obtain ⟨-, -, -, b, hb, hlabel, -, hresolves⟩ :=
    hjumps honce f hf _ (List.mem_map.mpr ⟨f, hf, rfl⟩) rfl ln hln "again" hl
  exact ⟨hread, hnames, _, hgen, honce, f, hf, hname, b, hb, hlabel, hresolves⟩

/-- Both functions define the label of their loop, so the second one may jump into the first. -/
theorem label_defined_twice : (readProgram (spinsText "loop" "loop")).result =
      .ok (spins "loop" "loop") ∧ (spins "loop" "loop").NamesApart ∧
    ∃ a, (spins "loop" "loop").generate .memory = .ok a ∧
      ∃ m n, m ≠ n ∧ a.DefinesAt m "loop" ∧ a.DefinesAt n "loop" := by
  have hread : (readProgram (spinsText "loop" "loop")).result = .ok (spins "loop" "loop") := by
    rw [readProgram, toList_spinsText]
    decide +kernel
  have hgen := Program.generate_eq_ok_iff.mpr
    ⟨(by decide +kernel : ∀ f ∈ (spins "loop" "loop").functions,
      ((spins "loop" "loop").functionEmission .memory f).failure = none), rfl⟩
  refine ⟨hread, ⟨by decide +kernel, by decide +kernel, by decide +kernel, by decide +kernel⟩,
    _, hgen, 4, 9, by decide, ?_, ?_⟩
  · unfold Asm.Program.DefinesAt
    decide +kernel
  · unfold Asm.Program.DefinesAt
    decide +kernel

end MipsBackend
