/-
What the log tells of a failure.

A failure may hold an error, which may wrap a chain of messages (`Failure.DueTo`). The error
shows the first message as its own text and is due to the error of the second
(`text_wrapping`, `textsOf_cause?_wrapping`), so whoever goes below the failure, from each error
to what it is due to (`Link.Follows`), meets the messages, each once and in order. They are told
as one text in one record.
-/
import LowPass.FileRun

namespace LowPass

/-! ## Chains -/

theorem Cause.exists_ofTexts (c : Cause) : ∃ first rest, c = .ofTexts first rest := by
  induction c with
  | root text => exact ⟨text, [], rfl⟩
  | dueTo text cause ih =>
    obtain ⟨first, rest, rfl⟩ := ih
    exact ⟨text, first :: rest, rfl⟩

theorem Cause.textsOf_cause?_ofTexts (first : String) (rest : List String) :
    textsOf (ofTexts first rest).cause? = rest := by
  cases rest with
  | nil => rfl
  | cons second rest => exact texts_ofTexts second rest

theorem chainText_cons (first : String) (rest : List String) :
    chainText (first :: rest) = first ++ String.join (rest.map (": " ++ ·)) := by
  unfold chainText
  induction rest generalizing first with
  | nil => simp
  | cons second rest ih => simp [ih, String.append_assoc]

namespace IoError

theorem exists_wrapping (e : IoError) : ∃ messages, e = .wrapping e.kind messages := by
  obtain ⟨kind, wrapped⟩ := e
  cases wrapped with
  | none => exact ⟨[], rfl⟩
  | some cause =>
    obtain ⟨first, rest, rfl⟩ := cause.exists_ofTexts
    exact ⟨first :: rest, rfl⟩

/-- The messages of an error, or the text of its kind if it has none. -/
def Kind.said (kind : Kind) (messages : List String) : List String :=
  match messages with
  | [] => [kind.text]
  | first :: rest => first :: rest

theorem text_wrapping (kind : Kind) (first : String) (rest : List String) :
    (wrapping kind (first :: rest)).text = first := by
  cases rest <;> rfl

theorem textsOf_cause?_wrapping (kind : Kind) (first : String) (rest : List String) :
    Cause.textsOf (wrapping kind (first :: rest)).cause? = rest :=
  Cause.textsOf_cause?_ofTexts first rest

/-- An error's own text and what it is due to are all that it says. -/
theorem texts_wrapping (kind : Kind) (messages : List String) :
    (wrapping kind messages).text :: Cause.textsOf (wrapping kind messages).cause? =
      kind.said messages := by
  cases messages with
  | nil => rfl
  | cons first rest => rw [text_wrapping, textsOf_cause?_wrapping, Kind.said]

end IoError

/-! ## Failures -/

/-- What a failure was made of, as texts: what its error says, if it has one. -/
inductive Failure.DueTo : Failure → List String → Prop
  | usage {program : String} : DueTo (.usage program) []
  | inputNotFound {path : String} : DueTo (.inputNotFound path) []
  | malformedSample {word : String} {line : Nat} : DueTo (.malformedSample word line) []
  | outputOpen {path : String} {kind : IoError.Kind} {messages : List String} :
    DueTo (.outputOpen path (.wrapping kind messages)) (kind.said messages)
  | io {kind : IoError.Kind} {messages : List String} :
    DueTo (.io (.wrapping kind messages)) (kind.said messages)

theorem Failure.DueTo.causes_eq {f : Failure} {texts : List String} (h : f.DueTo texts) :
    f.causes = texts := by
  cases h with
  | usage => rfl
  | inputNotFound => rfl
  | malformedSample => rfl
  | outputOpen => exact IoError.texts_wrapping ..
  | io => exact IoError.texts_wrapping ..

theorem Failure.exists_dueTo (f : Failure) : ∃ texts, f.DueTo texts := by
  cases f with
  | usage program => exact ⟨_, .usage⟩
  | inputNotFound path => exact ⟨_, .inputNotFound⟩
  | malformedSample word line => exact ⟨_, .malformedSample⟩
  | outputOpen path error =>
    obtain ⟨messages, hmessages⟩ := error.exists_wrapping
    rw [hmessages]
    exact ⟨_, .outputOpen⟩
  | io error =>
    obtain ⟨messages, hmessages⟩ := error.exists_wrapping
    rw [hmessages]
    exact ⟨_, .io⟩

/-- What is found below a failure is what it was made of. -/
theorem Failure.causes_eq_iff {f : Failure} {texts : List String} :
    f.causes = texts ↔ f.DueTo texts := by
  constructor
  · rintro rfl
    obtain ⟨texts, h⟩ := f.exists_dueTo
    rwa [h.causes_eq]
  · exact Failure.DueTo.causes_eq

/-! ## From cause to cause -/

/-- An error that can be met below a failure. -/
inductive Link where
  | error (e : IoError)
  | cause (c : Cause)

namespace Link

def text : Link → String
  | .error e => e.text
  | .cause c => c.text

/-- What the error is due to. -/
def next? : Link → Option Link
  | .error e => e.cause?.map .cause
  | .cause c => c.cause?.map .cause

/-- The texts that are met from a link on: its own, that of the next, and so on to the last. -/
inductive Follows : Option Link → List String → Prop
  | nothing : Follows none []
  | link {l : Link} {texts : List String} :
    Follows l.next? texts → Follows (some l) (l.text :: texts)

theorem Follows.unique {l : Option Link} {texts other : List String} (h : Follows l texts)
    (h' : Follows l other) : texts = other := by
  induction h generalizing other with
  | nothing =>
    cases h'
    rfl
  | link _ ih =>
    cases h' with
    | link h' => rw [ih h']

theorem follows_textsOf (c : Option Cause) : Follows (c.map .cause) (Cause.textsOf c) := by
  cases c with
  | none => exact .nothing
  | some c =>
    induction c with
    | root text => exact .link (l := .cause (.root text)) .nothing
    | dueTo text cause ih => exact .link (l := .cause (.dueTo text cause)) ih

end Link

theorem Failure.follows_causes (f : Failure) : Link.Follows (f.error?.map .error) f.causes := by
  unfold causes
  cases f.error? with
  | none => exact .nothing
  | some e => exact .link (l := .error e) (Link.follows_textsOf e.cause?)

/-! ## The log -/

theorem logged_failed (threshold : Level) (context : String) (f : Failure) :
    logged threshold [.failed context f] =
      if threshold = .critical then [] else [.failed context f] := by
  cases threshold <;> rfl

/-- **No cause is lost or told twice.** What a failure was made of is met below it, from each
error to what that is due to, and nothing else is; and it is told as one text, with colons
between. Logging the failure in a context prints nothing, and adds one record, with the
context, the failure's own text and that of its causes; at the threshold that only critical
records pass it adds none. -/
theorem failure_told (f : Failure) :
    ∃ texts chain, (∀ other, f.DueTo other ↔ other = texts) ∧
      (∀ other, Link.Follows (f.error?.map .error) other ↔ other = texts) ∧
      (match texts with
        | [] => chain = ""
        | first :: rest => chain = first ++ String.join (rest.map (": " ++ ·))) ∧
      chainText f.causes = chain ∧
      ∀ (threshold : Level) (context : String) (r : Report),
        let told := r.logFailure threshold context f
        told.status = r.status ∧ told.printed = r.printed ∧
          told.events.map Event.fields = r.events.map Event.fields ++
            if threshold = .critical then []
            else [[("msg", .text context), ("level", .text "ERRO"), ("app", .text "rc-filter"),
              ("error", .text f.message), ("causes", .text chain)]] := by
  refine ⟨f.causes, chainText f.causes, ?_, ?_, ?_, rfl, ?_⟩
  · intro other
    rw [← Failure.causes_eq_iff]
    exact eq_comm
  · intro other
    constructor
    · exact fun h => h.unique f.follows_causes
    · rintro rfl
      exact f.follows_causes
  · cases f.causes with
    | nil => rfl
    | cons first rest => exact chainText_cons first rest
  · intro threshold context r
    refine ⟨rfl, rfl, ?_⟩
    rw [Report.logFailure, logged_failed, List.map_append]
    split <;> rfl

example : chainText (Failure.io (.wrapping .other ["", "x", ""])).causes = ": x: " := by
  decide +kernel

end LowPass
