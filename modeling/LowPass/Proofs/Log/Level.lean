/-
Which texts spell which threshold of the log.

No two levels have names with the same initial, and none has that of `OFF`. So a text that
begins a name begins those of one level only, and the order in which the names are tried is
of no account: a level is spelled by the beginnings of its two names, and by nothing else
(`named?_eq_some_iff`). What any text, and any value of the variable, stands for follows
(`ofText_spells`).
-/
import LowPass.CommandLine.Variables
import LowPass.Text.Utf8.RoundTrip
import Mathlib.Data.List.Infix

namespace LowPass

/-! ## Lower case -/

/-- One text is another in lower case. The lower case of a capital sigma is final at the end
of a word and not elsewhere; here it may be either anywhere. -/
inductive LowerCase : List Char → List Char → Prop where
  | nil : LowerCase [] []
  | cons (c : Char) {cs k : List Char} : LowerCase cs k → LowerCase (c :: cs) (lowerChar c ++ k)
  | finalSigma {cs k : List Char} : LowerCase cs k → LowerCase ('Σ' :: cs) ('ς' :: k)

theorem lowerCase_lower (cs : List Char) : LowerCase cs (lower cs) := by
  induction cs with
  | nil => exact .nil
  | cons c cs ih => exact .cons c ih

/-- Where the sigmas can differ there are characters beyond ASCII. -/
theorem LowerCase.eq_or_beyond {cs k : List Char} (h : LowerCase cs k) :
    k = lower cs ∨ (∃ c ∈ k, 0x80 ≤ c.toNat) ∧ ∃ c ∈ lower cs, 0x80 ≤ c.toNat := by
  induction h with
  | nil => exact .inl rfl
  | cons c hk ih =>
    rcases ih with rfl | ⟨⟨d, hd, hbeyond⟩, e, he, hbeyond'⟩
    · exact .inl rfl
    · exact .inr ⟨⟨d, List.mem_append_right _ hd, hbeyond⟩, e, List.mem_append_right _ he, hbeyond'⟩
  | finalSigma =>
    right
    refine ⟨⟨'ς', List.mem_cons_self, by decide⟩, 'σ', ?_, by decide⟩
    have hsigma : lowerChar 'Σ' = ['σ'] := by decide +kernel
    simp [lower, hsigma]

namespace Level

/-! ## Names -/

/-- The names of a level in lower case, the long one first. -/
def names : Level → List String
  | .critical => ["critical", "crit"]
  | .error => ["error", "erro"]
  | .warning => ["warning", "warn"]
  | .info => ["info", "info"]
  | .debug => ["debug", "debg"]
  | .trace => ["trace", "trce"]

/-- A text in lower case spells a level: it begins one of its names. -/
def Spells (k : List Char) (level : Level) : Prop :=
  k ≠ [] ∧ ∃ name ∈ level.names, k <+: name.toList

/-- The letter with which the names of a level begin. -/
def initial : Level → Char
  | .critical => 'c'
  | .error => 'e'
  | .warning => 'w'
  | .info => 'i'
  | .debug => 'd'
  | .trace => 't'

theorem initial_inj {level other : Level} (h : level.initial = other.initial) : level = other := by
  cases level <;> cases other <;> first | rfl | exact absurd h (by decide)

theorem initial_ne_o (level : Level) : level.initial ≠ 'o' := by cases level <;> decide

theorem mem_levels (level : Level) : level ∈ all := by cases level <;> decide

theorem initial_of_spells {c : Char} {cs : List Char} {level : Level} (h : Spells (c :: cs) level) :
    level.initial = c := by
  obtain ⟨-, name, hname, rest, hrest⟩ := h
  have hhead : ∀ name ∈ level.names, name.toList.head? = some level.initial := by
    cases level <;> decide
  have hc := hhead name hname
  rw [← hrest] at hc
  exact (Option.some.inj hc).symm

theorem Spells.unique {k : List Char} {level other : Level} (h : Spells k level)
    (h' : Spells k other) : level = other := by
  cases k with
  | nil => exact absurd rfl h.1
  | cons c cs => exact initial_inj ((initial_of_spells h).trans (initial_of_spells h').symm)

theorem Spells.not_off {k : List Char} {level : Level} (h : Spells k level) :
    ¬ k <+: "off".toList := by
  rintro ⟨rest, hrest⟩
  cases k with
  | nil => exact h.1 rfl
  | cons c cs =>
    have hc : c = 'o' := (List.cons.inj hrest).1
    exact level.initial_ne_o ((initial_of_spells h).trans hc)

theorem Spells.ascii {k : List Char} {level : Level} (h : Spells k level) :
    ∀ c ∈ k, c.toNat < 0x80 := by
  obtain ⟨-, name, hname, hbegin⟩ := h
  have hascii : ∀ name ∈ level.names, name.toList.all (fun c => c.toNat < 0x80) = true := by
    cases level <;> decide
  intro c hc
  simpa using List.all_eq_true.1 (hascii name hname) c (hbegin.subset hc)

theorem Spells.not_longer {k : List Char} {level other : Level} (h : Spells k level) {name : String}
    (hname : other.names.head? = some name) (hbegin : name.toList <+: k) : k = name.toList := by
  obtain ⟨-, name', hname', hk⟩ := h
  have hlongest : ∀ long ∈ other.names.head?, ∀ name ∈ level.names,
      long.toList <+: name.toList → long = name := by
    cases other <;> cases level <;> decide
  obtain rfl := hlongest name hname name' hname' (hbegin.trans hk)
  exact hk.eq_of_length_le hbegin.length_le

/-! ## What a text spells -/

theorem begins_iff {k : List Char} {name : String} :
    begins k name = true ↔ k <+: name.toList.map Char.toLower := List.isPrefixOf_iff_prefix

theorem begins_off_iff {k : List Char} : begins k "OFF" = true ↔ k <+: "off".toList := by
  have hlower : "OFF".toList.map Char.toLower = "off".toList := by decide
  rw [begins_iff, hlower]

theorem spells_iff {k : List Char} {level : Level} :
    Spells k level ↔
      k ≠ [] ∧ (begins k level.longName = true ∨ begins k level.shortName = true) := by
  have hnames : level.names.map String.toList =
      [level.longName.toList.map Char.toLower, level.shortName.toList.map Char.toLower] := by
    cases level <;> decide
  have hmap : (∃ name ∈ level.names, k <+: name.toList) ↔
      ∃ cs ∈ level.names.map String.toList, k <+: cs := by simp
  rw [Spells, hmap, hnames, begins_iff, begins_iff]
  simp

section
variable {nameOf : Level → String} {k : List Char}
  (hnames : ∀ level, begins k (nameOf level) = true → Spells k level)
include hnames

/-- In one table of names the only level is found that a text can spell. -/
theorem spelled?_eq_level_iff {level : Level} :
    spelled? nameOf k = some (some level) ↔ begins k (nameOf level) = true := by
  unfold spelled?
  split
  · rename_i hoff
    constructor
    · intro h
      cases h
    · intro h
      exact absurd (begins_off_iff.1 hoff) (hnames level h).not_off
  · rw [Option.map_eq_some_iff]
    constructor
    · rintro ⟨found, hfind, hfound⟩
      cases hfound
      simpa using List.find?_some hfind
    · intro h
      cases hfind : all.find? fun level => begins k (nameOf level) with
      | none => exact absurd h (List.find?_eq_none.1 hfind level (mem_levels level))
      | some found =>
        have hfound : begins k (nameOf found) = true := by simpa using List.find?_some hfind
        exact ⟨found, rfl, congrArg some ((hnames found hfound).unique (hnames level h))⟩

end

theorem off_of_spelled? {nameOf : Level → String} {k : List Char}
    (h : spelled? nameOf k = some none) : k <+: "off".toList := by
  unfold spelled? at h
  split at h
  · rename_i hoff
    exact begins_off_iff.1 hoff
  · obtain ⟨level, -, hlevel⟩ := Option.map_eq_some_iff.1 h
    cases hlevel

theorem named?_eq_some_iff {s : String} {level : Level} :
    named? s = some level ↔ Spells (lower (trim s.toList)) level := by
  unfold named?
  dsimp only
  generalize lower (trim s.toList) = k
  by_cases hk : k = []
  · rw [if_pos hk]
    constructor
    · intro h
      cases h
    · intro h
      exact absurd hk h.1
  have hlong : ∀ level, begins k (longName level) = true → Spells k level :=
    fun level h => spells_iff.2 ⟨hk, .inl h⟩
  have hshort : ∀ level, begins k (shortName level) = true → Spells k level :=
    fun level h => spells_iff.2 ⟨hk, .inr h⟩
  rw [if_neg hk, spells_iff, and_iff_right hk, ← spelled?_eq_level_iff hlong,
    ← spelled?_eq_level_iff hshort]
  cases hfirst : spelled? longName k with
  | none => simp [Option.join_eq_some_iff]
  | some first =>
    -- the short names are not tried, and would give nothing else
    have hsame : spelled? shortName k = some (some level) → first = some level := by
      intro hsecond
      have hspells := hshort level ((spelled?_eq_level_iff hshort).1 hsecond)
      cases first with
      | none => exact absurd (off_of_spelled? hfirst) hspells.not_off
      | some other =>
        exact congrArg some ((hlong other ((spelled?_eq_level_iff hlong).1 hfirst)).unique hspells)
    simp only [Option.some_or, Option.join_some, Option.some.injEq]
    exact ⟨.inl, fun h => h.elim id hsame⟩

/-- How a capital sigma is made small does not matter. -/
theorem spells_lower_iff {cs k : List Char} (hk : LowerCase cs k) {level : Level} :
    Spells (lower cs) level ↔ Spells k level := by
  rcases hk.eq_or_beyond with rfl | ⟨⟨c, hc, hbeyond⟩, d, hd, hbeyond'⟩
  · exact Iff.rfl
  · constructor
    · intro h
      exact absurd (h.ascii d hd) (Nat.not_lt.2 hbeyond')
    · intro h
      exact absurd (h.ascii c hc) (Nat.not_lt.2 hbeyond)

theorem ofText_eq_iff {s : String} {k : List Char} (hk : LowerCase (trim s.toList) k)
    {level : Level} (hlevel : level ≠ .info) : ofText s = level ↔ Spells k level := by
  rw [← spells_lower_iff hk, ← named?_eq_some_iff, ofText]
  cases named? s with
  | none => simpa using hlevel.symm
  | some found => simp

theorem ofText_eq_info {s : String} {k : List Char} (hk : LowerCase (trim s.toList) k)
    (h : ∀ level, level ≠ .info → ¬ Spells k level) : ofText s = .info := by
  by_contra hne
  exact h (ofText s) hne ((ofText_eq_iff hk hne).1 rfl)

end Level

/-! ## The variable -/

namespace Variables

theorem logLevel_eq (vars : Variables) :
    vars.logLevel =
      (((vars.pairs.lookup logName).bind Bytes.text?).map Level.ofText).getD .info := by
  have hname : IsName logName := by decide
  rw [logLevel, getOr, get?, if_pos hname]
  cases (vars.pairs.lookup logName).bind Bytes.text? with
  | none =>
    change Level.ofText "info" = .info
    decide +kernel
  | some s => rfl

end Variables

namespace Level

/-- **The thresholds have one language.** A text stands for a level other than `info` when it
is, in lower case and without the blanks around it, the beginning of a name of that level,
and for `info` in every other case; no text spells two levels. The variable of the log
stands for what its text does, and for `info` if it is not set or no text. -/
theorem ofText_spells :
    (∀ (s : String) (k : List Char), LowerCase (trim s.toList) k →
        (∀ level, level ≠ .info → (ofText s = level ↔ Spells k level)) ∧
        ((∀ level, level ≠ .info → ¬ Spells k level) → ofText s = .info) ∧
        (k = [] → ofText s = .info) ∧
        (∀ level : Level, ∀ name ∈ level.names.head?, name.toList <+: k → k ≠ name.toList →
          ofText s = .info) ∧
        (k <+: "off".toList → ofText s = .info) ∧
        ((∃ c ∈ k, 0x80 ≤ c.toNat) → ofText s = .info)) ∧
      (∀ (k : List Char) (level other : Level),
        Spells k level → Spells k other → level = other) ∧
      ∀ vars : Variables,
        (∀ s : String, vars.pairs.lookup "RC_FILTER_LOG" = some (.ofText s) →
          vars.logLevel = ofText s) ∧
        (∀ value : Bytes, vars.pairs.lookup "RC_FILTER_LOG" = some value →
          (¬ ∃ s : String, value = .ofText s) → vars.logLevel = .info) ∧
        (vars.pairs.lookup "RC_FILTER_LOG" = none → vars.logLevel = .info) := by
  refine ⟨fun s k hk => ?_, fun k level other h h' => h.unique h', fun vars => ?_⟩
  · refine ⟨fun level => ofText_eq_iff hk, ofText_eq_info hk, ?_, ?_, ?_, ?_⟩
    · intro hnil
      exact ofText_eq_info hk fun level _ h => h.1 hnil
    · intro level name hname hbegin hne
      exact ofText_eq_info hk fun other _ h => hne (h.not_longer hname hbegin)
    · intro hoff
      exact ofText_eq_info hk fun level _ h => h.not_off hoff
    · rintro ⟨c, hc, hbeyond⟩
      exact ofText_eq_info hk fun level _ h => Nat.not_lt.2 hbeyond (h.ascii c hc)
  · have hlevel := vars.logLevel_eq
    refine ⟨fun s hs => ?_, fun value hvalue hnone => ?_, fun hunset => ?_⟩
    · rw [hlevel, Variables.logName, hs, Option.bind_some, Bytes.text?_ofText]
      rfl
    · have htext : value.text? = none := by
        rw [Option.eq_none_iff_forall_ne_some]
        exact fun s hs => hnone ⟨s, Bytes.text?_eq_some_iff.1 hs⟩
      rw [hlevel, Variables.logName, hvalue, Option.bind_some, htext]
      rfl
    · rw [hlevel, Variables.logName, hunset]
      rfl

/-- A short name cut off, with an ideographic space before it; a word that ends in a sigma;
and a value that is no text. -/
theorem ofText_spells_cutOff :
    let typed := "\u3000TrC\n"
    let sigma := "TRΣ"
    let vars := fun value : Bytes => (⟨[("RC_FILTER_LOG", value)]⟩ : Variables)
    LowerCase (trim typed.toList) "trc".toList ∧ ofText typed = .trace ∧
      LowerCase (trim sigma.toList) "trς".toList ∧ ofText sigma = .info ∧
      (vars (.ofText typed)).logLevel = .trace ∧ (vars [0xFF]).logLevel = .info := by
  intro typed sigma vars
  have htyped : LowerCase (trim typed.toList) "trc".toList := by
    have hlower : lower (trim typed.toList) = "trc".toList := by decide +kernel
    exact hlower ▸ lowerCase_lower _
  have hsigma : LowerCase (trim sigma.toList) "trς".toList := by
    have htrim : trim sigma.toList = ['T', 'R', 'Σ'] := by decide +kernel
    have hlower : lowerChar 'T' ++ (lowerChar 'R' ++ ['ς']) = "trς".toList := by decide +kernel
    rw [htrim, ← hlower]
    exact .cons 'T' (.cons 'R' (.finalSigma .nil))
  obtain ⟨hlanguage, -, hvariable⟩ := ofText_spells
  have htrace : ofText typed = .trace := by
    have hspells : Spells "trc".toList .trace := ⟨by decide, "trce", by decide, by decide⟩
    exact ((hlanguage typed _ htyped).1 .trace (by decide)).2 hspells
  have hinfo : ofText sigma = .info :=
    (hlanguage sigma _ hsigma).2.2.2.2.2 ⟨'ς', by decide, by decide⟩
  refine ⟨htyped, htrace, hsigma, hinfo, ?_, ?_⟩
  · exact ((hvariable (vars (.ofText typed))).1 typed rfl).trans htrace
  · refine (hvariable (vars [0xFF])).2.1 [0xFF] rfl ?_
    rintro ⟨s, hs⟩
    have hnone : Bytes.text? [0xFF] = none := by decide +kernel
    exact nomatch hnone.symm.trans (Bytes.text?_eq_some_iff.2 hs)

end Level
end LowPass
