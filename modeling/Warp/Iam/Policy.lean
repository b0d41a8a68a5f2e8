import Mathlib.Data.List.Basic
import Warp.Foundation.Glob

/-! # Patterns of policy statements

`actionMatches` and `resourceMatches` turn a pattern into a regular expression by replacing text: a
dot is escaped and the wildcards become dots, but other characters with a meaning in regular
expressions are left as they are. `matches_glob` says which patterns and subjects are decided as the
wildcards promise. The regular expression engine is a parameter with its documentation
(`Regex.Documented`).
-/

namespace Warp.Iam

open List Glob

open Glob (Token)

abbrev Text := List Char

/-- The string with every `old` replaced. -/
def Text.replace (text : Text) (old : Char) (new : Text) : Text :=
  text.flatMap fun character => if character = old then new else [character]

/-- Characters that do not stand for themselves in a regular expression. -/
def metacharacters : Text := "\\.+*?()|[\x7b^$".toList

/-- The regular expression for one token: a dot is the only character it escapes. -/
def regexText : Token Char → Text
  | .literal character => if character = '.' then ['\\', '.'] else [character]
  | .any => ['.']
  | .star => ['.', '*']

/-- The letters of a pattern stand for themselves in `regexText`. -/
def Spellable (tokens : List (Token Char)) : Prop :=
  ∀ character ∈ Glob.literals tokens, character = '.' ∨ character ∉ metacharacters

/-- What `.` stands for. -/
def dot (character : Char) : Bool := character != '\n'

structure Regex where
  /-- The compiled expression as its `is_match`, or an error. -/
  new : Text → Option (Text → Bool)
  /-- Expressions of this many tokens stay below the limit on the size of a compiled one. -/
  room : ℕ

/-- What the engine's documentation says of the expressions that spellable patterns become:
`^` and `$` are the ends of the text, and `.` stands for any character but a line feed. -/
structure Regex.Documented (regex : Regex) : Prop where
  compiles : ∀ tokens, Spellable tokens → tokens.length ≤ regex.room →
    ∃ isMatch, regex.new ("^".toList ++ tokens.flatMap regexText ++ "$".toList) = some isMatch ∧
      ∀ text, isMatch text = true ↔ Glob.Matches dot tokens text

variable {character : Char}

section Fragment

/-- The tokens of an expression up to its final `$`, if it is made of plain characters, escaped
dots, `.` and `.*`. -/
def Regex.tokens : Text → Option (List (Token Char))
  | [] => none
  | ['$'] => some []
  | '.' :: '*' :: rest => (Regex.tokens rest).map (.star :: ·)
  | '.' :: rest => (Regex.tokens rest).map (.any :: ·)
  | '\\' :: '.' :: rest => (Regex.tokens rest).map (.literal '.' :: ·)
  | character :: rest =>
    if character ∈ metacharacters then none
    else (Regex.tokens rest).map (.literal character :: ·)

def Regex.fragment : Regex where
  new
    | '^' :: text => (Regex.tokens text).map fun tokens subject =>
      Glob.accepts dot tokens subject
    | _ => none
  room := 1000

variable {tokens : List (Token Char)}

theorem Spellable.tail {token : Token Char} (spellable : Spellable (token :: tokens)) :
    Spellable tokens := by
  intro character spelled
  refine spellable character ?_
  cases token with
  | literal _ => exact mem_cons_of_mem _ spelled
  | any => exact spelled
  | star => exact spelled

/-- No token's expression starts with a star, so the one before it is read alone. -/
theorem regexText_head_ne_star (spellable : Spellable tokens) (rest : Text) :
    tokens.flatMap regexText ++ ['$'] ≠ '*' :: rest := by
  intro starts
  cases tokens with
  | nil => cases starts
  | cons token tokens =>
    cases token with
    | any => cases starts
    | star => cases starts
    | literal character =>
      have allowed := spellable character mem_cons_self
      by_cases dotted : character = '.'
      · subst dotted
        cases starts
      · simp only [flatMap_cons, regexText, if_neg dotted, cons_append, List.cons.injEq] at starts
        rw [starts.1] at allowed
        revert allowed
        decide

theorem tokens_literal (plain : character ∉ metacharacters) (rest : Text) :
    Regex.tokens (character :: rest) = (Regex.tokens rest).map (.literal character :: ·) := by
  have differs {other : Char} (special : other ∈ metacharacters) : character ≠ other :=
    fun same => plain (same ▸ special)
  rw [Regex.tokens]
  · exact if_neg plain
  · exact fun same _ => differs (by decide) same
  · exact fun _ same _ => differs (by decide) same
  · exact fun same => differs (by decide) same
  · exact fun _ same _ => differs (by decide) same

theorem tokens_flatMap_regexText (spellable : Spellable tokens) :
    Regex.tokens (tokens.flatMap regexText ++ ['$']) = some tokens := by
  induction tokens with
  | nil => rfl
  | cons token rest ih =>
    have read := ih spellable.tail
    rw [flatMap_cons, append_assoc]
    cases token with
    | star =>
      change (Regex.tokens (rest.flatMap regexText ++ ['$'])).map _ = _
      rw [read]
      rfl
    | any =>
      change Regex.tokens ('.' :: (rest.flatMap regexText ++ ['$'])) = _
      rw [Regex.tokens, read]
      · rfl
      · exact regexText_head_ne_star spellable.tail
    | literal character =>
      rcases spellable character mem_cons_self with rfl | plain
      · change (Regex.tokens (rest.flatMap regexText ++ ['$'])).map _ = _
        rw [read]
        rfl
      · have notDot : character ≠ '.' := fun dotted => plain (dotted ▸ by decide)
        rw [regexText, if_neg notDot, singleton_append, tokens_literal plain, read]
        rfl

theorem Regex.fragment_documented : Regex.fragment.Documented := by
  constructor
  intro tokens spellable _
  refine ⟨fun subject => Glob.accepts dot tokens subject, ?_, accepts_iff dot tokens⟩
  change (Regex.tokens (tokens.flatMap regexText ++ ['$'])).map _ = _
  rw [tokens_flatMap_regexText spellable]
  rfl

end Fragment

section
variable (regex : Regex)

/-- The end of both functions below: a pattern that is no expression, or not a valid one, is
compared with the subject. -/
def expressionMatches (expression : Option Text) (pattern subject : Text) : Bool :=
  match expression.bind fun text => regex.new ("^".toList ++ text ++ "$".toList) with
  | some isMatch => isMatch subject
  | none => pattern == subject

/-- `action_matches`. -/
def actionMatches (pattern action : Text) : Bool :=
  if pattern = "*".toList ∨ pattern = "s3:*".toList then true
  else
    let expression :=
      if '*' ∈ pattern then
        some ((pattern.replace '.' "\\.".toList).replace '*' ".*".toList)
      else none
    expressionMatches regex expression pattern action

/-- `resource_matches`. -/
def resourceMatches (pattern resource : Text) : Bool :=
  if pattern = "*".toList then true
  else
    let expression :=
      if '*' ∈ pattern ∨ '?' ∈ pattern then
        some (((pattern.replace '.' "\\.".toList).replace '*' ".*".toList).replace '?' ".".toList)
      else none
    expressionMatches regex expression pattern resource

end

def actionToken (character : Char) : Token Char :=
  if character = '*' then .star else .literal character

def resourceToken (character : Char) : Token Char :=
  if character = '*' then .star else if character = '?' then .any else .literal character

/-- The subjects of an action pattern read as a glob. -/
def ActionGlob (pattern action : Text) : Prop :=
  Glob.Matches (fun _ => true) (pattern.map actionToken) action
  deriving Decidable

/-- The subjects of a resource pattern read as a glob. -/
def ResourceGlob (pattern resource : Text) : Prop :=
  Glob.Matches (fun _ => true) (pattern.map resourceToken) resource
  deriving Decidable

section Spelling
variable {token : Char → Token Char}

/-- A reading of patterns that keeps characters outside `wildcards` as they are. -/
structure Reads (token : Char → Token Char) (wildcards : Text) : Prop where
  wildcard : ∀ character ∈ wildcards, Glob.literals [token character] = []
  literal : ∀ character, character ∉ wildcards → token character = .literal character

theorem reads_actionToken : Reads actionToken ['*'] := by
  constructor
  · intro character special
    rw [mem_singleton.mp special]
    rfl
  · intro character plain
    exact if_neg (ne_of_not_mem_cons plain)

theorem reads_resourceToken : Reads resourceToken ['*', '?'] := by
  constructor
  · simp [resourceToken, Glob.literals]
  · intro character plain
    have notStar := ne_of_not_mem_cons plain
    have notMark := ne_of_not_mem_cons (not_mem_of_not_mem_cons plain)
    rw [resourceToken, if_neg notStar, if_neg notMark]

variable {wildcards : Text} (pattern : Text)

theorem Reads.literals_map (reads : Reads token wildcards) (pattern : Text) :
    Glob.literals (pattern.map token) = pattern.filter fun character => character ∉ wildcards := by
  induction pattern with
  | nil => rfl
  | cons character pattern ih =>
    by_cases special : character ∈ wildcards
    · have skipped := reads.wildcard character special
      rw [map_cons, filter_cons_of_neg (by simpa using special), ← ih]
      cases kind : token character <;> rw [kind] at skipped
      · cases skipped
      · rfl
      · rfl
    · rw [map_cons, reads.literal character special,
        filter_cons_of_pos (by simpa using special), ← ih]
      rfl

theorem Reads.matches_iff (reads : Reads token wildcards) {pattern : Text}
    (unwild : ∀ character ∈ wildcards, character ∉ pattern) (wild : Char → Bool) (subject : Text) :
    Glob.Matches wild (pattern.map token) subject ↔ pattern = subject := by
  have plain : pattern.map token = pattern.map .literal :=
    map_congr_left fun character inside =>
      reads.literal character fun special => unwild character special inside
  rw [plain, matches_map_literal_iff, eq_comm]

/-- The replacements give the expression of the pattern's tokens. -/
theorem actionExpression_eq :
    (pattern.replace '.' "\\.".toList).replace '*' ".*".toList =
      (pattern.map actionToken).flatMap regexText := by
  simp only [Text.replace, flatMap_assoc, flatMap_map]
  refine flatMap_congr fun character _ => ?_
  by_cases dotted : character = '.'
  · subst dotted; rfl
  · by_cases star : character = '*'
    · subst star; rfl
    · simp [actionToken, regexText, dotted, star]

theorem resourceExpression_eq :
    ((pattern.replace '.' "\\.".toList).replace '*' ".*".toList).replace '?' ".".toList =
      (pattern.map resourceToken).flatMap regexText := by
  simp only [Text.replace, flatMap_assoc, flatMap_map]
  refine flatMap_congr fun character _ => ?_
  by_cases dotted : character = '.'
  · subst dotted; rfl
  · by_cases star : character = '*'
    · subst star; rfl
    · by_cases mark : character = '?'
      · subst mark; rfl
      · simp [resourceToken, regexText, dotted, star, mark]

end Spelling

section Agreement

/-- Apart from dots and its wildcards, the pattern has characters that stand for themselves, and
its expression is below the engine's limit. -/
structure Expressible (regex : Regex) (wildcards pattern : Text) : Prop where
  plain : ∀ character ∈ pattern, character ∈ '.' :: wildcards ∨ character ∉ metacharacters
  fits : pattern.length ≤ regex.room

variable {regex : Regex} {token : Char → Token Char} {wildcards pattern subject : Text}

theorem Expressible.of_all
    (checked : pattern.all
      (fun character => character ∈ '.' :: wildcards ∨ character ∉ metacharacters) = true)
    (fits : pattern.length ≤ regex.room) : Expressible regex wildcards pattern :=
  ⟨fun character inside => of_decide_eq_true (all_eq_true.mp checked character inside), fits⟩

theorem Expressible.spellable (expressible : Expressible regex wildcards pattern)
    (reads : Reads token wildcards) : Spellable (pattern.map token) := by
  intro character spelled
  rw [reads.literals_map, mem_filter, decide_eq_true_iff] at spelled
  obtain ⟨inside, unwild⟩ := spelled
  rcases expressible.plain character inside with special | plain
  · rcases mem_cons.mp special with dotted | wild
    · exact .inl dotted
    · exact absurd wild unwild
  · exact .inr plain

theorem Reads.count_literals (reads : Reads token wildcards) (unwild : character ∉ wildcards)
    (pattern : Text) :
    (Glob.literals (pattern.map token)).count character = pattern.count character := by
  rw [reads.literals_map]
  exact count_filter (by simpa using unwild)

theorem expressionMatches_none_iff : expressionMatches regex none pattern subject = true ↔
    pattern = subject := beq_iff_eq

/-- An expressible pattern is matched as a glob whose wildcards miss the line feed. -/
theorem Regex.Documented.expressionMatches_iff (documented : regex.Documented)
    (reads : Reads token wildcards) (lineFeed : '\n' ∉ wildcards)
    (expressible : Expressible regex wildcards pattern) :
    expressionMatches regex (some ((pattern.map token).flatMap regexText)) pattern subject =
        true ↔
      Glob.Matches (fun _ => true) (pattern.map token) subject ∧
        subject.count '\n' ≤ pattern.count '\n' := by
  have fits : (pattern.map token).length ≤ regex.room := by
    rw [length_map]
    exact expressible.fits
  obtain ⟨isMatch, compiled, matched⟩ :=
    documented.compiles _ (expressible.spellable reads) fits
  have missed : (fun character => !dot character) = (· == '\n') := by
    funext character
    exact Bool.not_not _
  have result : expressionMatches regex (some ((pattern.map token).flatMap regexText)) pattern
      subject = isMatch subject := by
    simp only [expressionMatches, Option.bind_some, compiled]
  rw [result, matched, matches_iff_countP_le, missed, ← reads.count_literals lineFeed pattern]
  rfl

end Agreement

section Resources
variable {regex : Regex} {pattern resource : Text}

/-- `resource_matches` decides this resource as the pattern's glob does: the pattern is `*`, it
has no wildcard, or it is expressible and a resource it describes has no line feed that the
pattern does not spell out. -/
def ResourceFaithful (regex : Regex) (pattern resource : Text) : Prop :=
  pattern = "*".toList ∨ ('*' ∉ pattern ∧ '?' ∉ pattern) ∨
    Expressible regex ['*', '?'] pattern ∧
      (ResourceGlob pattern resource → resource.count '\n' ≤ pattern.count '\n')

theorem resourceMatches_of_unwild (unwild : '*' ∉ pattern ∧ '?' ∉ pattern) :
    resourceMatches regex pattern resource = true ↔ ResourceGlob pattern resource := by
  have notAll : pattern ≠ "*".toList := fun all => unwild.1 (all ▸ by decide)
  have outside : ∀ character ∈ ['*', '?'], character ∉ pattern := by
    simpa using unwild
  have noExpression : ¬ ('*' ∈ pattern ∨ '?' ∈ pattern) := not_or.mpr unwild
  rw [ResourceGlob, reads_resourceToken.matches_iff outside, resourceMatches, if_neg notAll,
    if_neg noExpression]
  exact expressionMatches_none_iff

theorem resourceMatches_eq_of_wild (notAll : pattern ≠ "*".toList)
    (wild : ¬ ('*' ∉ pattern ∧ '?' ∉ pattern)) :
    resourceMatches regex pattern resource =
      expressionMatches regex (some ((pattern.map resourceToken).flatMap regexText)) pattern
        resource := by
  have hasExpression : '*' ∈ pattern ∨ '?' ∈ pattern := by
    simpa only [not_and_or, not_not] using wild
  rw [resourceMatches, if_neg notAll, if_pos hasExpression, resourceExpression_eq]

theorem resource_agrees_iff (documented : regex.Documented)
    (expressible : Expressible regex ['*', '?'] pattern) :
    (resourceMatches regex pattern resource = true ↔ ResourceGlob pattern resource) ↔
      ResourceFaithful regex pattern resource := by
  by_cases all : pattern = "*".toList
  · subst all
    exact iff_of_true (iff_of_true rfl (matches_star resource)) (.inl rfl)
  by_cases unwild : '*' ∉ pattern ∧ '?' ∉ pattern
  · exact iff_of_true (resourceMatches_of_unwild unwild) (.inr (.inl unwild))
  rw [resourceMatches_eq_of_wild all unwild,
    documented.expressionMatches_iff reads_resourceToken (by decide) expressible]
  simp only [ResourceFaithful, all, unwild, false_or, expressible, true_and]
  exact and_iff_left_iff_imp

theorem resource_agrees (documented : regex.Documented)
    (faithful : ResourceFaithful regex pattern resource) :
    resourceMatches regex pattern resource = true ↔ ResourceGlob pattern resource := by
  rcases faithful with rfl | unwild | ⟨expressible, spelled⟩
  · exact iff_of_true rfl (matches_star resource)
  · exact resourceMatches_of_unwild unwild
  · exact (resource_agrees_iff documented expressible).mpr (.inr (.inr ⟨expressible, spelled⟩))

end Resources

section Actions
variable {regex : Regex} {pattern action : Text}

/-- `action_matches` decides this action as the pattern's glob does: as for a resource, and
`s3:*` is right about the actions of that service only. -/
def ActionFaithful (regex : Regex) (pattern action : Text) : Prop :=
  pattern = "*".toList ∨ '*' ∉ pattern ∨ (pattern = "s3:*".toList ∧ "s3:".toList <+: action) ∨
    pattern ≠ "s3:*".toList ∧ Expressible regex ['*'] pattern ∧
      (ActionGlob pattern action → action.count '\n' ≤ pattern.count '\n')

theorem actionMatches_of_unwild (unwild : '*' ∉ pattern) :
    actionMatches regex pattern action = true ↔ ActionGlob pattern action := by
  have notShort : ¬ (pattern = "*".toList ∨ pattern = "s3:*".toList) := by
    rintro (rfl | rfl) <;> exact unwild (by decide)
  have outside : ∀ character ∈ ['*'], character ∉ pattern := by
    simpa using unwild
  rw [ActionGlob, reads_actionToken.matches_iff outside, actionMatches, if_neg notShort,
    if_neg unwild]
  exact expressionMatches_none_iff

theorem actionGlob_service_iff : ActionGlob "s3:*".toList action ↔ "s3:".toList <+: action :=
  matches_star_tail_iff "s3:".toList action

theorem actionMatches_eq_of_wild (notAll : pattern ≠ "*".toList)
    (notService : pattern ≠ "s3:*".toList) (wild : '*' ∈ pattern) :
    actionMatches regex pattern action =
      expressionMatches regex (some ((pattern.map actionToken).flatMap regexText)) pattern
        action := by
  have notShort : ¬ (pattern = "*".toList ∨ pattern = "s3:*".toList) :=
    not_or.mpr ⟨notAll, notService⟩
  rw [actionMatches, if_neg notShort, if_pos wild, actionExpression_eq]

theorem action_agrees_iff (documented : regex.Documented)
    (expressible : Expressible regex ['*'] pattern) :
    (actionMatches regex pattern action = true ↔ ActionGlob pattern action) ↔
      ActionFaithful regex pattern action := by
  by_cases all : pattern = "*".toList
  · subst all
    exact iff_of_true (iff_of_true rfl (matches_star action)) (.inl rfl)
  by_cases wild : '*' ∈ pattern
  · by_cases service : pattern = "s3:*".toList
    · have matched : actionMatches regex pattern action = true := if_pos (.inr service)
      have described : ActionGlob pattern action ↔ "s3:".toList <+: action :=
        service ▸ actionGlob_service_iff
      rw [matched, described]
      simp [ActionFaithful, service]
    · rw [actionMatches_eq_of_wild all service wild,
        documented.expressionMatches_iff reads_actionToken (by decide) expressible]
      simp only [ActionFaithful, all, wild, service, expressible, false_or, not_true, false_and,
        ne_eq, not_false_iff, true_and]
      exact and_iff_left_iff_imp
  · exact iff_of_true (actionMatches_of_unwild wild) (.inr (.inl wild))

theorem action_agrees (documented : regex.Documented)
    (faithful : ActionFaithful regex pattern action) :
    actionMatches regex pattern action = true ↔ ActionGlob pattern action := by
  rcases faithful with rfl | unwild | ⟨rfl, service⟩ | ⟨other, expressible, spelled⟩
  · exact iff_of_true rfl (matches_star action)
  · exact actionMatches_of_unwild unwild
  · exact iff_of_true rfl (actionGlob_service_iff.mpr service)
  · exact (action_agrees_iff documented expressible).mpr
      (.inr (.inr (.inr ⟨other, expressible, spelled⟩)))

end Actions

/-- Whether a pattern decides a subject as its glob does. The condition is exact unless the
pattern has wildcards together with further characters of regular expressions. -/
theorem matches_glob (regex : Regex) (documented : regex.Documented) (pattern subject : Text) :
    (ResourceFaithful regex pattern subject →
      (resourceMatches regex pattern subject = true ↔ ResourceGlob pattern subject)) ∧
    (('*' ∈ pattern ∨ '?' ∈ pattern → Expressible regex ['*', '?'] pattern) →
      (resourceMatches regex pattern subject = true ↔ ResourceGlob pattern subject) →
        ResourceFaithful regex pattern subject) ∧
    (ActionFaithful regex pattern subject →
      (actionMatches regex pattern subject = true ↔ ActionGlob pattern subject)) ∧
    (('*' ∈ pattern → Expressible regex ['*'] pattern) →
      (actionMatches regex pattern subject = true ↔ ActionGlob pattern subject) →
        ActionFaithful regex pattern subject) := by
  refine ⟨resource_agrees documented, ?_, action_agrees documented, ?_⟩
  · intro expressible agrees
    by_cases wild : '*' ∈ pattern ∨ '?' ∈ pattern
    · exact (resource_agrees_iff documented (expressible wild)).mp agrees
    · exact .inr (.inl (not_or.mp wild))
  · intro expressible agrees
    by_cases wild : '*' ∈ pattern
    · exact (action_agrees_iff documented (expressible wild)).mp agrees
    · exact .inr (.inl wild)

/-- A bucket's objects and the reading actions. -/
theorem matches_glob_bucket :
    resourceMatches .fragment "arn:aws:s3:::logs.eu/*".toList "arn:aws:s3:::logs.eu/a?".toList =
      true ∧
    actionMatches .fragment "s3:Get*".toList "s3:PutObject".toList = false := by
  have expressible : Expressible .fragment ['*', '?'] "arn:aws:s3:::logs.eu/*".toList :=
    .of_all (by decide) (by decide)
  have reading : Expressible .fragment ['*'] "s3:Get*".toList :=
    .of_all (by decide) (by decide)
  have resources := (matches_glob .fragment Regex.fragment_documented
    "arn:aws:s3:::logs.eu/*".toList "arn:aws:s3:::logs.eu/a?".toList).1
      (.inr (.inr ⟨expressible, fun _ => by decide⟩))
  have actions := (matches_glob .fragment Regex.fragment_documented "s3:Get*".toList
    "s3:PutObject".toList).2.2.1 (.inr (.inr (.inr ⟨by decide, reading, fun _ => by decide⟩)))
  constructor
  · exact resources.mpr (by decide)
  · exact Bool.eq_false_iff.mpr fun matched => absurd (actions.mp matched) (by decide)

/-- `s3:*` covers the actions of other services, a line feed in an object's key escapes a
wildcard, and a pattern that is no valid expression covers nothing but itself. -/
theorem patterns_not_globs :
    (actionMatches .fragment "s3:*".toList "iam:DeleteUser".toList = true ∧
      ¬ ActionGlob "s3:*".toList "iam:DeleteUser".toList) ∧
    (resourceMatches .fragment "secret/*".toList "secret/\n".toList = false ∧
      ResourceGlob "secret/*".toList "secret/\n".toList) ∧
    (resourceMatches .fragment "(*".toList "(x".toList = false ∧
      ResourceGlob "(*".toList "(x".toList) := by
  decide

end Warp.Iam
