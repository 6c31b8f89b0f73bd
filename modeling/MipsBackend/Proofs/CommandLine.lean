import Mathlib.Data.List.Induction
import MipsBackend.Command.Flags

/-! Command lines as a language. A command line stands for a list of flags with their values and
for a list of other arguments, and taking its arguments from left to right is setting these flags
one after the other. So the last value of a flag is the one that counts. -/
namespace MipsBackend

namespace Flag

/-- What starts with an equals sign and goes on: a value for the letter before. -/
def IsAssigned (s : List Char) : Prop := ∃ c cs, s = '=' :: c :: cs

/-- The letters after a dash, the flags that they give, and the flag at their end that waits for
its value. -/
inductive Letters : List Char → List (Flag × String) → Option Flag → Prop
  | nil : Letters [] [] none
  | assigned {f c d s} (hc : letter? f = some c) :
    Letters (c :: '=' :: d :: s) [(f, String.ofList (d :: s))] none
  | switch {f c s gs w} (hc : letter? f = some c) (hf : f.isSwitch = true) (hs : ¬ IsAssigned s)
    (rest : Letters s gs w) : Letters (c :: s) ((f, "true") :: gs) w
  | joined {f c s} (hc : letter? f = some c) (hf : f.isSwitch = false) (hs : ¬ IsAssigned s)
    (hne : s ≠ []) : Letters (c :: s) [(f, String.ofList s)] none
  | waiting {f c} (hc : letter? f = some c) (hf : f.isSwitch = false) : Letters [c] [] (some f)

/-- What stands after the dash of an argument, the flags that it gives, and the flag that waits for
its value. -/
inductive Argument : List Char → List (Flag × String) → Option Flag → Prop
  | assigned (f : Flag) (v : List Char) :
    Argument ('-' :: f.name.toList ++ '=' :: v) [(f, String.ofList v)] none
  | switch {f : Flag} (hf : f.isSwitch = true) : Argument ('-' :: f.name.toList) [(f, "true")] none
  | waiting {f : Flag} (hf : f.isSwitch = false) : Argument ('-' :: f.name.toList) [] (some f)
  | letters {c s gs w} (hc : c ≠ '-') (hs : Letters (c :: s) gs w) : Argument (c :: s) gs w

/-- The last of the values that are given to a flag. -/
def lastValue? (f : Flag) (fs : List (Flag × String)) : Option String :=
  (fs.reverse.find? fun g => g.1 = f).map Prod.snd

end Flag

/-- The arguments of a command line, the flags that they give in their order, and the arguments
that are no flags. -/
inductive CommandLine : List String → List (Flag × String) → List String → Prop
  | nil : CommandLine [] [] []
  | dashes (xs : List String) : CommandLine ("--" :: xs) [] xs
  | argument {a as fs xs} (ha : a.toList.head? ≠ some '-' ∨ a = "-") (rest : CommandLine as fs xs) :
    CommandLine (a :: as) fs (a :: xs)
  | flags {a s gs as fs xs} (ha : a.toList = '-' :: s) (hs : Flag.Argument s gs none)
    (rest : CommandLine as fs xs) : CommandLine (a :: as) (gs ++ fs) xs
  | valued {a s gs f v as fs xs} (ha : a.toList = '-' :: s) (hs : Flag.Argument s gs (some f))
    (rest : CommandLine as fs xs) : CommandLine (a :: v :: as) (gs ++ (f, v) :: fs) xs

namespace Flag
variable {f : Flag} {c : Char}

lemma ofLetter?_eq_some : ofLetter? c = some f ↔ f.letter? = some c := by
  constructor
  · intro h
    simpa using List.find?_some h
  · intro h
    cases f <;> cases h <;> decide

lemma ofName?_name (f : Flag) : ofName? f.name = some f := by cases f <;> decide

lemma name_of_ofName? {s : String} (h : ofName? s = some f) : f.name = s := by
  simpa using List.find?_some h

/-- Names are written without equals signs and do not start with a dash. -/
lemma name_plain (f : Flag) : (f.name.toList.all fun c => c ≠ '=') = true ∧
    ∃ c, f.name.toList.head? = some c ∧ c ≠ '-' ∧ c ≠ '=' := by
  cases f <;> exact ⟨by decide, _, rfl, by decide, by decide⟩

lemma name_ne_nil (f : Flag) : f.name.toList ≠ [] := by cases f <;> decide

end Flag

namespace Options
variable {o o' : Options} {w : Option Flag} {gs fs : List (Flag × String)} {s : List Char}

/-- Set flags one after the other. -/
def setAll (o : Options) : List (Flag × String) → Except FlagError Options
  | [] => .ok o
  | g :: gs => (o.set g.1 g.2).bind fun o => o.setAll gs

lemma setAll_append (o : Options) (gs fs : List (Flag × String)) :
    o.setAll (gs ++ fs) = (o.setAll gs).bind fun o => o.setAll fs := by
  induction gs generalizing o with
  | nil => rfl
  | cons g gs ih =>
    rw [List.cons_append, setAll, setAll]
    cases o.set g.1 g.2 with
    | error e => rfl
    | ok o => exact ih o

lemma setAll_singleton (o : Options) (f : Flag) (v : String) : o.setAll [(f, v)] = o.set f v := by
  rw [setAll]
  cases o.set f v <;> rfl

/-- The letters of an argument set the flags that they give. -/
lemma letters_eq (h : Flag.Letters s gs w) : o.letters s = (o.setAll gs).map (·, w) := by
  induction h generalizing o with
  | nil => rfl
  | assigned hc =>
    rw [letters, Flag.ofLetter?_eq_some.mpr hc, setAll_singleton]
    rfl
  | @switch f c s gs w hc hf hs rest ih =>
    rw [letters, Flag.ofLetter?_eq_some.mpr hc, setAll]
    dsimp only
    split
    · next d r => exact absurd ⟨d, r, rfl⟩ hs
    · rw [if_pos hf]
      cases o.set f "true" with
      | error e => rfl
      | ok o => exact ih
  | @joined f c s hc hf hs hne =>
    rw [letters, Flag.ofLetter?_eq_some.mpr hc, setAll_singleton]
    dsimp only
    split
    · next d r => exact absurd ⟨d, r, rfl⟩ hs
    · rw [if_neg (by simp [hf])]
      split
      · exact absurd rfl hne
      · rfl
  | waiting hc hf =>
    rw [letters, Flag.ofLetter?_eq_some.mpr hc]
    simp [hf]
    rfl

lemma eq_of_map_eq_ok {x : Except FlagError Options} {v : Option Flag}
    (h : x.map (·, v) = .ok (o', w)) : w = v := by
  cases x <;> cases h
  rfl

lemma exists_letters (h : o.letters s = .ok (o', w)) : ∃ gs, Flag.Letters s gs w := by
  induction s generalizing o with
  | nil =>
    cases h
    exact ⟨[], .nil⟩
  | cons c s ih =>
    rw [letters] at h
    split at h
    · cases h
    · next f hf =>
      have hc := Flag.ofLetter?_eq_some.mp hf
      split at h
      · next d r =>
        obtain rfl := eq_of_map_eq_ok h
        exact ⟨_, .assigned hc⟩
      · next hs =>
        have hs : ¬ Flag.IsAssigned s := by
          rintro ⟨d, r, hdr⟩
          exact hs d r hdr
        split_ifs at h with hswitch
        · split at h
          · cases h
          · obtain ⟨gs, hgs⟩ := ih h
            exact ⟨_, .switch hc hswitch hs hgs⟩
        · have hswitch := Bool.eq_false_iff.mpr hswitch
          split at h
          · cases h
            exact ⟨_, .waiting hc hswitch⟩
          · next hne =>
            obtain rfl := eq_of_map_eq_ok h
            exact ⟨_, .joined hc hswitch hs hne⟩

/-- A long name ends at the first equals sign. -/
lemma long_name_append (o : Options) (f : Flag) {r : List Char}
    (hr : r.head?.all (· = '=') = true) : o.long (f.name.toList ++ r) =
      match r with
      | [] => if f.isSwitch then (o.set f "true").map (·, none) else .ok (o, some f)
      | _ :: v => (o.set f (String.ofList v)).map (·, none) := by
  obtain ⟨hplain, hhead⟩ := f.name_plain
  have hplain : ∀ c ∈ f.name.toList, decide (c ≠ '=') = true := List.all_eq_true.mp hplain
  have hend : ∀ c v, r = c :: v → c = '=' := by
    rintro c v rfl
    simpa using hr
  have htake : (f.name.toList ++ r).takeWhile (· ≠ '=') = f.name.toList := by
    rw [List.takeWhile_append_of_pos hplain]
    cases r with
    | nil => simp
    | cons c v => simp [hend c v rfl]
  have hdrop : (f.name.toList ++ r).dropWhile (· ≠ '=') = r := by
    rw [List.dropWhile_append_of_pos hplain]
    cases r with
    | nil => rfl
    | cons c v => simp [hend c v rfl]
  have hstart : ¬ ((f.name.toList ++ r).head? = some '-' ∨
      (f.name.toList ++ r).head? = some '=') := by
    obtain ⟨c, hc, hdash, hequals⟩ := hhead
    rw [List.head?_append, hc]
    simp [hdash, hequals]
  unfold long
  dsimp only
  rw [htake, hdrop, if_neg hstart, String.ofList_toList, Flag.ofName?_name]
  cases r <;> rfl

/-- An argument sets the flags that it gives. -/
lemma flags_eq (h : Flag.Argument s gs w) : o.flags s = (o.setAll gs).map (·, w) := by
  cases h with
  | assigned f v =>
    rw [List.cons_append, flags, o.long_name_append f rfl, setAll_singleton]
  | @switch f hf =>
    have hlong := o.long_name_append f (r := []) rfl
    rw [List.append_nil] at hlong
    rw [flags, hlong, setAll_singleton]
    exact if_pos hf
  | @waiting f hf =>
    have hlong := o.long_name_append f (r := []) rfl
    rw [List.append_nil] at hlong
    rw [flags, hlong]
    exact if_neg (by simp [hf])
  | letters hc hs =>
    rw [← letters_eq hs, flags]
    intro t ht
    exact hc (List.cons.inj ht).1

lemma exists_argument (h : o.flags s = .ok (o', w)) (hs : s ≠ []) : ∃ gs, Flag.Argument s gs w := by
  unfold flags at h
  split at h
  · next t =>
    unfold long at h
    dsimp only at h
    split_ifs at h
    have ht := List.takeWhile_append_dropWhile (p := fun c => decide (c ≠ '=')) (l := t)
    have hname : ∀ f, Flag.ofName? (String.ofList (t.takeWhile (· ≠ '='))) = some f →
        t.takeWhile (· ≠ '=') = f.name.toList := by
      intro f hf
      rw [Flag.name_of_ofName? hf, String.toList_ofList]
    split at h
    · cases h
    · next f c v hf hrest =>
      obtain rfl := eq_of_map_eq_ok h
      obtain rfl : c = '=' := by
        have hc := List.head?_dropWhile_not (fun c => decide (c ≠ '=')) t
        rw [hrest] at hc
        simpa using hc
      rw [hrest, hname f hf] at ht
      subst ht
      exact ⟨_, .assigned f v⟩
    · next f hf hrest =>
      rw [hrest, hname f hf, List.append_nil] at ht
      subst ht
      split_ifs at h with hswitch
      · obtain rfl := eq_of_map_eq_ok h
        exact ⟨_, .switch hswitch⟩
      · cases h
        exact ⟨_, .waiting (Bool.eq_false_iff.mpr hswitch)⟩
  · next hdash =>
    obtain ⟨gs, hgs⟩ := exists_letters h
    cases s with
    | nil => exact absurd rfl hs
    | cons c t => exact ⟨gs, .letters (fun hc => hdash t (by rw [hc])) hgs⟩

/-! ### Whole command lines -/

/-- Flags are set whatever the other arguments are. -/
lemma set_arguments (o : Options) (f : Flag) (v : String) (xs : List String) :
    set { o with arguments := xs } f v = (o.set f v).map fun o => { o with arguments := xs } := by
  unfold set
  cases Flag.switchValue? v <;> cases Text.prefixedInteger? v.toList <;> cases f <;> rfl

lemma setAll_arguments (o : Options) (gs : List (Flag × String)) (xs : List String) :
    setAll { o with arguments := xs } gs =
      (o.setAll gs).map fun o => { o with arguments := xs } := by
  induction gs generalizing o with
  | nil => rfl
  | cons g gs ih =>
    rw [setAll, setAll, set_arguments]
    cases o.set g.1 g.2 with
    | error e => rfl
    | ok o => exact ih o

lemma arguments_of_setAll (h : o.setAll gs = .ok o') : o'.arguments = o.arguments := by
  have hsame := o.setAll_arguments gs o.arguments
  rw [h, Except.map] at hsame
  have hfield := congrArg arguments (Except.ok.inj hsame)
  exact hfield

/-- After the dash of an argument there is more than another dash. -/
lemma cons_of_argument (h : Flag.Argument s gs w) : ∃ c t, s = c :: t ∧ s ≠ ['-'] := by
  cases h with
  | assigned f v => exact ⟨_, _, rfl, by simp⟩
  | @switch f hf => exact ⟨_, _, rfl, fun h => f.name_ne_nil (List.cons.inj h).2⟩
  | @waiting f hf => exact ⟨_, _, rfl, fun h => f.name_ne_nil (List.cons.inj h).2⟩
  | letters hc hs => exact ⟨_, _, rfl, fun h => hc (List.cons.inj h).1⟩

/-- Taking an argument with flags. -/
lemma take_cons {a : String} {as : List String} (ha : a.toList = '-' :: s)
    (h : Flag.Argument s gs w) : o.take (a :: as) = (o.setAll gs).bind fun o =>
      match w, as with
      | none, as => o.take as
      | some f, [] => .error (.missingValue f)
      | some f, v :: as => (o.set f v).bind fun o => o.take as := by
  obtain ⟨c, t, rfl, hne⟩ := cons_of_argument h
  rw [take, ha]
  split
  · next heq => exact absurd (List.cons.inj heq).2 hne
  · next heq =>
    cases heq
    rw [flags_eq h]
    cases o.setAll gs with
    | error e => rfl
    | ok o₁ =>
      cases w with
      | none => rfl
      | some f =>
        cases as with
        | nil => rfl
        | cons v as =>
          simp only [Except.map, Except.bind]
          cases o₁.set f v <;> rfl
  · next heq => exact absurd rfl (heq c t)

/-- Taking an argument that is no flag. -/
lemma take_cons_of_plain {a : String} {as : List String}
    (ha : a.toList.head? ≠ some '-' ∨ a = "-") :
    o.take (a :: as) = take { o with arguments := o.arguments ++ [a] } as := by
  rw [take]
  split
  · next heq =>
    rcases ha with ha | rfl
    · exact absurd (by rw [heq]; rfl) ha
    · cases heq
  · next heq =>
    rcases ha with ha | rfl
    · exact absurd (by rw [heq]; rfl) ha
    · cases heq
  · rfl

/-- Taking a command line is setting its flags one after the other and gathering the other
arguments. -/
lemma take_eq {as xs : List String} (h : CommandLine as fs xs) :
    o.take as = (o.setAll fs).map fun o' => { o' with arguments := o.arguments ++ xs } := by
  induction h generalizing o with
  | nil =>
    rw [take, List.append_nil]
    rfl
  | dashes xs => rfl
  | @argument a as fs xs ha rest ih =>
    rw [take_cons_of_plain ha, ih, setAll_arguments, List.append_assoc]
    cases o.setAll fs <;> rfl
  | @flags a s gs as fs xs ha hs rest ih =>
    rw [take_cons ha hs, setAll_append]
    cases hgs : o.setAll gs with
    | error e => rfl
    | ok o₁ =>
      rw [← arguments_of_setAll hgs]
      exact ih
  | @valued a s gs f v as fs xs ha hs rest ih =>
    rw [take_cons ha hs, List.append_cons, setAll_append, setAll_append]
    cases hgs : o.setAll gs with
    | error e => rfl
    | ok o₁ =>
      simp only [Except.bind, setAll_singleton]
      cases hset : o₁.set f v with
      | error e => rfl
      | ok o₂ =>
        have hset : o₁.setAll [(f, v)] = .ok o₂ := (o₁.setAll_singleton f v).trans hset
        rw [← arguments_of_setAll hgs, ← arguments_of_setAll hset]
        exact ih

/-- What can be taken is a command line. -/
lemma exists_commandLine {as : List String} (h : o.take as = .ok o') :
    ∃ fs xs, CommandLine as fs xs := by
  fun_induction take o as with
  | case1 o => exact ⟨[], [], .nil⟩
  | case2 o a rest ha =>
    obtain rfl : a = "--" := String.toList_inj.mp ha
    exact ⟨[], rest, .dashes rest⟩
  | case3 o a rest c s hne ha e hflags => cases h
  | case4 o a rest c s hne ha o₁ hflags ih =>
    obtain ⟨gs, hgs⟩ := exists_argument hflags (List.cons_ne_nil c s)
    obtain ⟨fs, xs, hrest⟩ := ih h
    exact ⟨_, xs, .flags ha hgs hrest⟩
  | case5 o a c s hne ha o₁ f hflags => cases h
  | case6 o a c s hne ha o₁ f hflags v rest e hset => cases h
  | case7 o a c s hne ha o₁ f hflags v rest o₂ hset ih =>
    obtain ⟨gs, hgs⟩ := exists_argument hflags (List.cons_ne_nil c s)
    obtain ⟨fs, xs, hrest⟩ := ih h
    exact ⟨_, xs, .valued ha hgs hrest⟩
  | case8 o a rest hdashes hflags ih =>
    obtain ⟨fs, xs, hrest⟩ := ih h
    refine ⟨fs, a :: xs, .argument ?_ hrest⟩
    cases ha : a.toList with
    | nil => simp
    | cons c s =>
      by_cases hc : c = '-'
      · subst hc
        cases s with
        | nil => exact Or.inr (String.toList_inj.mp ha)
        | cons d t => exact absurd ha (hflags d t)
      · simp [hc]

/-! ### The last value counts -/

/-- A field of the options that one flag gives its value, if `read` can read it. -/
structure IsField {α : Type} (field : Options → Option α) (f : Flag) (read : String → Option α) :
    Prop where
  set_eq : ∀ o g v o', set o g v = .ok o' → field o' = if g = f then read v else field o
  accepted : ∀ o v o', set o f v = .ok o' → ∃ a, read v = some a

lemma IsField.setAll {α : Type} {field : Options → Option α} {f : Flag} {read : String → Option α}
    (hfield : IsField field f read) (h : o.setAll fs = .ok o') :
    (∀ v, f.lastValue? fs = some v → ∃ a, read v = some a ∧ field o' = some a) ∧
      (f.lastValue? fs = none → field o' = field o) := by
  induction fs using List.reverseRecOn generalizing o' with
  | nil =>
    cases h
    exact ⟨nofun, fun _ => rfl⟩
  | append_singleton fs g ih =>
    rw [setAll_append] at h
    cases hfs : o.setAll fs with
    | error e =>
      rw [hfs] at h
      cases h
    | ok o₁ =>
      rw [hfs] at h
      have hset : o₁.set g.1 g.2 = .ok o' := (o₁.setAll_singleton g.1 g.2).symm.trans h
      have hlast : f.lastValue? (fs ++ [g]) = if g.1 = f then some g.2 else f.lastValue? fs := by
        by_cases hg : g.1 = f <;> simp [Flag.lastValue?, hg]
      rw [hlast, hfield.set_eq o₁ g.1 g.2 o' hset]
      split_ifs with hg
      · subst hg
        obtain ⟨a, ha⟩ := hfield.accepted o₁ g.2 o' hset
        refine ⟨fun v hv => ?_, nofun⟩
        cases hv
        exact ⟨a, ha, ha⟩
      · exact ih hfs

/-- What setting a flag does to the settings and to the path of the settings file. -/
structure Sets (o : Options) (f : Flag) (v : String) (o' : Options) : Prop where
  output : o'.settings.output = if f = .output then some v else o.settings.output
  registers : o'.settings.registers =
    if f = .registers then Text.prefixedInteger? v.toList else o.settings.registers
  verbose : o'.settings.verbose = if f = .verbose then Flag.switchValue? v else o.settings.verbose
  config : o'.config = if f = .config then v else o.config
  scheme : o'.settings.scheme = o.settings.scheme
  number : f = .registers → ∃ n, Text.prefixedInteger? v.toList = some n
  switch : f = .verbose → ∃ b, Flag.switchValue? v = some b

lemma sets_of_set {f : Flag} {v : String} (h : o.set f v = .ok o') : o.Sets f v o' := by
  unfold set at h
  cases hb : Flag.switchValue? v <;> cases hn : Text.prefixedInteger? v.toList <;>
    rw [hb, hn] at h <;> cases f <;> cases h <;> constructor <;> simp [hb, hn]

lemma isField_output : IsField (·.settings.output) .output some :=
  ⟨fun _ _ _ _ h => (sets_of_set h).output, fun _ v _ _ => ⟨v, rfl⟩⟩

lemma isField_registers :
    IsField (·.settings.registers) .registers fun v => Text.prefixedInteger? v.toList :=
  ⟨fun _ _ _ _ h => (sets_of_set h).registers, fun _ _ _ h => (sets_of_set h).number rfl⟩

lemma isField_verbose : IsField (·.settings.verbose) .verbose Flag.switchValue? :=
  ⟨fun _ _ _ _ h => (sets_of_set h).verbose, fun _ _ _ h => (sets_of_set h).switch rfl⟩

lemma isField_config : IsField (fun o => some o.config) .config some := by
  refine ⟨fun o g v o' h => ?_, fun _ v _ _ => ⟨v, rfl⟩⟩
  rw [(sets_of_set h).config]
  split_ifs <;> rfl

/-- No flag is for the scheme. -/
lemma scheme_of_setAll (h : o.setAll fs = .ok o') : o'.settings.scheme = o.settings.scheme := by
  induction fs generalizing o with
  | nil =>
    cases h
    rfl
  | cons g fs ih =>
    rw [setAll] at h
    cases hset : o.set g.1 g.2 with
    | error e =>
      rw [hset] at h
      cases h
    | ok o₁ =>
      rw [hset] at h
      exact (ih h).trans (sets_of_set hset).scheme

/-- The options of a command line are those that its flags set. -/
lemma exists_setAll {args xs : List String} (h : ofArgs args = .ok o)
    (hline : CommandLine (expandDumps args) fs xs) :
    ∃ o', setAll {} fs = .ok o' ∧ o = { o' with arguments := xs } := by
  rw [ofArgs, take_eq hline] at h
  cases hset : setAll {} fs with
  | error e =>
    rw [hset] at h
    cases h
  | ok o' =>
    rw [hset] at h
    cases h
    exact ⟨o', rfl, rfl⟩

/-- A command line whose options can be told is one, with their other arguments. -/
lemma exists_flags {args : List String} (h : ofArgs args = .ok o) :
    ∃ fs, CommandLine (expandDumps args) fs o.arguments := by
  obtain ⟨fs, xs, hline⟩ := exists_commandLine h
  obtain ⟨o', -, rfl⟩ := exists_setAll h hline
  exact ⟨fs, hline⟩

end Options
end MipsBackend
