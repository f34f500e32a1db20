import QueryPlanner.Proofs.Text.Runs
import QueryPlanner.Settings.Expansion

/-!
# The tokens of a text with variables

A text is cut into tokens from left to right: variables, in braces or as long as their names go, and
single characters.  There is one way to cut it.  Expanding the text puts values in the places of
variables and does not look into the values, so it is known token by token.

* `Settings.Names` — what a dollar sign names, and where the text goes on
* `Settings.Cut` — a text cut into tokens; `Settings.exists_cut`, `Settings.Cut.unique`
* `Settings.Cut.expandChars` — what a text that is cut expands to
* `Settings.expand_tokens` — every text
-/

namespace QueryPlanner

namespace Settings

/-! ### Tokens -/

/-- A piece of a text. -/
inductive Token where
  /-- A character that stands for itself. -/
  | char (c : Char)
  /-- A dollar sign with the name of a variable. -/
  | reference (name : List Char)

namespace Token

/-- The variable that a token names. -/
def name? : Token → Option String
  | char _ => none
  | reference name => some (String.ofList name)

/-- What a token stands for if its variable is set. -/
def value (env : Environment) : Token → List Char
  | char c => [c]
  | reference name => ((env (String.ofList name)).getD "").toList

/-- The variables that tokens name, in order. -/
def names (tokens : List Token) : List String := tokens.filterMap name?

end Token

/-- What the text after a dollar sign names, and how it goes on.  A name in braces goes on to the
first closing brace, or to the end of the text if there is none; a name without braces is as long as
it may be, and not empty. -/
inductive Names : List Char → List Char → List Char → Prop
  | closed {name rest} (first : '\x7d' ∉ name) :
    Names ('\x7b' :: (name ++ '\x7d' :: rest)) name rest
  | unclosed {name} (none : '\x7d' ∉ name) : Names ('\x7b' :: name) name []
  | plain {name rest} (nonempty : name ≠ []) (chars : ∀ c ∈ name, isNameChar c = true)
    (longest : ∀ c ∈ rest.head?, isNameChar c = false) : Names (name ++ rest) name rest

/-- A text cut into tokens from left to right.  A dollar sign stands for itself if it names nothing.
-/
inductive Cut : List Char → List Token → Prop
  | nil : Cut [] []
  | reference {after name rest tokens} (names : Names after name rest) (cut : Cut rest tokens) :
    Cut ('$' :: after) (.reference name :: tokens)
  | char {c after tokens} (plain : c = '$' → ∀ name rest, ¬ Names after name rest)
    (cut : Cut after tokens) : Cut (c :: after) (.char c :: tokens)

/-! ### Names -/

theorem notMem_brace_iff {name : List Char} :
    '\x7d' ∉ name ↔ ∀ c ∈ name, (c != '\x7d') = true :=
  ⟨fun h _ hc => bne_iff_ne.mpr fun heq => h (heq ▸ hc), fun h hmem => bne_iff_ne.mp (h _ hmem) rfl⟩

/-- Splitting off a name finds what is named. -/
theorem Names.splitName {after name rest : List Char} (h : Names after name rest) :
    splitName after = (name, rest) := by
  cases h with
  | closed first =>
    have hend : ∀ c ∈ ('\x7d' :: rest).head?, (c != '\x7d') = false := by simp
    obtain ⟨htake, hdrop⟩ := Text.span_append (notMem_brace_iff.mp first) hend
    simp [Settings.splitName, htake, hdrop]
  | unclosed none =>
    have hend : ∀ c ∈ ([] : List Char).head?, (c != '\x7d') = false := by simp
    obtain ⟨htake, hdrop⟩ := Text.span_append (notMem_brace_iff.mp none) hend
    rw [List.append_nil] at htake hdrop
    simp [Settings.splitName, htake, hdrop]
  | plain nonempty chars longest =>
    obtain ⟨htake, hdrop⟩ := Text.span_append chars longest
    unfold Settings.splitName
    split
    · next cs heq =>
      -- a brace is no part of a name without braces
      cases name with
      | nil => exact absurd rfl nonempty
      | cons c name =>
        obtain rfl : c = '\x7b' := (List.cons.inj heq).1
        exact absurd (chars _ List.mem_cons_self) (by decide +kernel)
    · rw [htake, hdrop]

/-- After a dollar sign something is named unless there is neither a name nor a brace. -/
theorem exists_names_iff {after : List Char} : (∃ name rest, Names after name rest) ↔
    ¬ ((splitName after).1 = [] ∧ after.head? ≠ some '\x7b') := by
  constructor
  · rintro ⟨name, rest, h⟩
    rw [h.splitName]
    cases h with
    | closed | unclosed => simp
    | plain nonempty => exact fun hnone => nonempty hnone.1
  · intro hvisible
    by_cases hbrace : after.head? = some '\x7b'
    · obtain ⟨cs, rfl⟩ := List.head?_eq_some_iff.mp hbrace
      obtain ⟨name, rest, rfl, hname, hrest⟩ := Text.exists_span (· != '\x7d') cs
      cases rest with
      | nil =>
        rw [List.append_nil]
        exact ⟨name, [], .unclosed (notMem_brace_iff.mpr hname)⟩
      | cons c rest =>
        obtain rfl : c = '\x7d' := by simpa using hrest c rfl
        exact ⟨name, rest, .closed (notMem_brace_iff.mpr hname)⟩
    · obtain ⟨name, rest, rfl, hname, hrest⟩ := Text.exists_span isNameChar after
      refine ⟨name, rest, .plain (fun hnil => hvisible ⟨?_, hbrace⟩) hname hrest⟩
      subst hnil
      unfold splitName
      split
      · next cs heq => exact absurd (congrArg List.head? heq) hbrace
      · exact (Text.span_append hname hrest).1

/-! ### Cutting a text -/

/-- **Every text can be cut.** -/
theorem exists_cut : ∀ cs : List Char, ∃ tokens, Cut cs tokens
  | [] => ⟨[], .nil⟩
  | c :: cs => by
    by_cases hnames : c = '$' ∧ ∃ name rest, Names cs name rest
    · obtain ⟨rfl, name, rest, hnames⟩ := hnames
      have hshorter : rest.length ≤ cs.length := by
        simpa [hnames.splitName] using length_splitName_le cs
      obtain ⟨tokens, hcut⟩ := exists_cut rest
      exact ⟨_, .reference hnames hcut⟩
    · obtain ⟨tokens, hcut⟩ := exists_cut cs
      exact ⟨_, .char (fun hdollar name rest h => hnames ⟨hdollar, name, rest, h⟩) hcut⟩
termination_by cs => cs.length

/-- **In one way only.** -/
theorem Cut.unique {cs : List Char} {tokens others : List Token} (h : Cut cs tokens)
    (h' : Cut cs others) : tokens = others := by
  induction h generalizing others with
  | nil =>
    cases h'
    rfl
  | reference names _ ih =>
    cases h' with
    | reference names' cut' =>
      obtain ⟨rfl, rfl⟩ := Prod.mk.inj (names.splitName.symm.trans names'.splitName)
      rw [ih cut']
    | char plain => exact absurd names (plain rfl _ _)
  | char plain _ ih =>
    cases h' with
    | reference names' => exact absurd names' (plain rfl _ _)
    | char _ cut' => rw [ih cut']

/-! ### Expanding a text -/

section

variable {env : Environment}

theorem expandChars_reference {after name rest : List Char} (h : Names after name rest) :
    expandChars env ('$' :: after) = (do
      let value ← valueOf env (String.ofList name)
      let others ← expandChars env rest
      .ok (value.toList ++ others)) := by
  have hnot : ¬ ('$' ≠ '$' ∨ (splitName after).1 = [] ∧ after.head? ≠ some '\x7b') :=
    fun hnone => exists_names_iff.mp ⟨name, rest, h⟩ (hnone.resolve_left fun hne => hne rfl)
  rw [expandChars, if_neg hnot, h.splitName]

theorem expandChars_char {c : Char} {after : List Char}
    (h : c = '$' → ∀ name rest, ¬ Names after name rest) :
    expandChars env (c :: after) = (expandChars env after).map (c :: ·) := by
  rw [expandChars, if_pos]
  refine or_iff_not_imp_left.mpr fun hdollar => ?_
  by_contra hvisible
  obtain ⟨name, rest, hnames⟩ := exists_names_iff.mpr hvisible
  exact h (not_not.mp hdollar) name rest hnames

/-- **What a text that is cut expands to**: the values of its tokens, unless a variable is not set;
then the first such variable is the error. -/
theorem Cut.expandChars {cs : List Char} {tokens : List Token} (h : Cut cs tokens) :
    expandChars env cs = match (Token.names tokens).find? fun name => (env name).isNone with
      | none => .ok (tokens.flatMap (Token.value env))
      | some name => .error ⟨name⟩ := by
  induction h with
  | nil => simp [Settings.expandChars, Token.names]
  | @reference after name rest tokens names cut ih =>
    have hnames : Token.names (.reference name :: tokens) =
        String.ofList name :: Token.names tokens := rfl
    rw [expandChars_reference names, ih, hnames, List.find?_cons, valueOf]
    cases hset : env (String.ofList name) with
    | none => rfl
    | some value =>
      cases (Token.names tokens).find? fun name => (env name).isNone <;>
        simp [bind, Except.bind, Token.value, hset]
  | @char c after tokens plain cut ih =>
    have hnames : Token.names (.char c :: tokens) = Token.names tokens := rfl
    rw [expandChars_char plain, ih, hnames]
    cases (Token.names tokens).find? fun name => (env name).isNone <;> rfl

end

/-- **A text expands token by token.**  Every text can be cut into tokens in one way.  If every
variable that the tokens name is set, the text expands to the values of the tokens in order, and
what is in a value is not looked at again; otherwise the leftmost variable that is not set is the
error. -/
theorem expand_tokens (env : Environment) (text : String) :
    ∃ tokens, Cut text.toList tokens ∧ (∀ others, Cut text.toList others → others = tokens) ∧
      ((∀ name ∈ Token.names tokens, (env name).isSome) →
        expand env text = .ok (String.ofList (tokens.flatMap (Token.value env)))) ∧
      ∀ before name after, Token.names tokens = before ++ name :: after →
        (∀ other ∈ before, (env other).isSome) → env name = none →
          expand env text = .error ⟨name⟩ := by
  obtain ⟨tokens, hcut⟩ := exists_cut text.toList
  refine ⟨tokens, hcut, fun others h => h.unique hcut, fun hset => ?_,
    fun before name after hnames hset hunset => ?_⟩
  · have hfound : (Token.names tokens).find? (fun name => (env name).isNone) = none := by
      simpa [List.find?_eq_none, Option.isSome_iff_ne_none] using hset
    rw [expand, hcut.expandChars, hfound]
    rfl
  · have hfound : (Token.names tokens).find? (fun name => (env name).isNone) = some name := by
      refine List.find?_eq_some_iff_append.mpr ⟨by simp [hunset], before, after, hnames, ?_⟩
      simpa using hset
    rw [expand, hcut.expandChars, hfound]
    rfl

/-- Variables without a blank between them, one with a dollar sign in its value, among dollar signs
that stand for themselves; and variables that are not set, the last in a brace that is not closed.
-/
theorem expand_tokens_adjacent :
    let env : Environment := fun name =>
      if name = "A" then some "$B" else if name = "B" then some "b" else none
    expand env "$$A$\x7bB\x7d$" = .ok "$$Bb$" ∧ expand env "$A$C$\x7bD" = .error ⟨"C"⟩ := by
  intro env
  have hlone : ∀ after, (splitName after).1 = [] ∧ after.head? ≠ some '\x7b' →
      '$' = '$' → ∀ name rest, ¬ Names after name rest :=
    fun after hnone _ name rest h => exists_names_iff.mp ⟨name, rest, h⟩ hnone
  have hplain : ∀ name rest, name ≠ [] ∧ name.all isNameChar = true ∧
      rest.head?.any isNameChar = false → Names (name ++ rest) name rest := by
    rintro name rest ⟨hne, hchars, hend⟩
    refine .plain hne (List.all_eq_true.mp hchars) fun c hc => ?_
    rwa [Option.mem_def.mp hc, Option.any_some] at hend
  constructor
  · have hcut : Cut "$$A$\x7bB\x7d$".toList
        [.char '$', .reference ['A'], .reference ['B'], .char '$'] := by
      have hbraced : Names ('\x7b' :: (['B'] ++ '\x7d' :: ['$'])) ['B'] ['$'] :=
        .closed (by decide)
      refine .char (hlone _ (by decide +kernel)) ?_
      refine .reference (hplain ['A'] "$\x7bB\x7d$".toList (by decide +kernel)) ?_
      exact .reference hbraced (.char (hlone _ (by decide +kernel)) .nil)
    obtain ⟨tokens, -, honly, hset, -⟩ := expand_tokens env "$$A$\x7bB\x7d$"
    rw [← honly _ hcut] at hset
    exact (hset (by decide +kernel)).trans (congrArg Except.ok (by decide +kernel))
  · have hcut : Cut "$A$C$\x7bD".toList
        [.reference ['A'], .reference ['C'], .reference ['D']] := by
      have hbraced : Names "\x7bD".toList ['D'] [] := .unclosed (by decide)
      refine .reference (hplain ['A'] "$C$\x7bD".toList (by decide +kernel)) ?_
      exact .reference (hplain ['C'] "$\x7bD".toList (by decide +kernel)) (.reference hbraced .nil)
    obtain ⟨tokens, -, honly, -, hunset⟩ := expand_tokens env "$A$C$\x7bD"
    rw [← honly _ hcut] at hunset
    exact hunset ["A"] "C" ["D"] rfl (by decide +kernel) rfl

end Settings

end QueryPlanner
