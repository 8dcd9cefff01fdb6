import Runbook.Proofs.Statement.Grammar
import Runbook.Proofs.Token.Layout

/-!
# What errors of a statement show

The reader of statements blames one of the tokens that it was given. Only where a word is missing
it shows the whole text, and where there are no tokens it shows nothing. As tokens stand in the text
as they are written, so does what is shown.

## Main definitions

* `Statement.Blames`: an error is one that a token is at fault for.

## Main results

* `Statement.blames_of_readParameters`: the reader of parameters blames one of its tokens;
* `Statement.infix_of_ofText_eq_error`: what an error shows stands in the text, on the first line.
-/

namespace Runbook.Statement

open Token (Kind)

/-- One of the tokens is at fault for the error. -/
def Blames (tokens : List Token) (e : SyntaxError) : Prop :=
  ∃ token ∈ tokens, ∃ fault, e = token.error fault

theorem Blames.mono {tokens tokens' : List Token} {e : SyntaxError} (h : Blames tokens e)
    (hsubset : tokens ⊆ tokens') : Blames tokens' e := by
  obtain ⟨token, htoken, fault, rfl⟩ := h
  exact ⟨token, hsubset htoken, fault, rfl⟩

/-- The token itself is at fault. -/
theorem blames_self {token : Token} {tokens : List Token} (htoken : token ∈ tokens)
    (fault : SyntaxFault) : Blames tokens (token.error fault) :=
  ⟨token, htoken, fault, rfl⟩

/-! ## Values -/

theorem blames_of_readItem {token : Token} {e : SyntaxError} (h : readItem token = .error e) :
    Blames [token] e := by
  rw [readItem] at h
  split at h
  · cases h; exact blames_self List.mem_cons_self _
  · cases h; exact blames_self List.mem_cons_self _
  · cases h; exact blames_self List.mem_cons_self _
  · split at h
    · cases h
    · cases h; exact blames_self List.mem_cons_self _

/-- The reader of items blames the bracket that opens their list or one of the tokens behind it. -/
theorem blames_of_readItems {opening : Token} {tokens : List Token} {e : SyntaxError}
    (h : readItems opening tokens = .error e) : Blames (opening :: tokens) e := by
  -- A list that is not closed is the fault of its opening bracket, wherever the tokens end.
  fun_induction readItems opening tokens with
  | case1 => cases h; exact blames_self List.mem_cons_self _
  | case2 token rest e' hitem =>
    cases h
    exact (blames_of_readItem hitem).mono (by simp)
  | case3 => cases h; exact blames_self List.mem_cons_self _
  | case4 => cases h
  | case5 token item hitem separator rest hcomma e' hrest ih =>
    cases h
    refine (ih hrest).mono ?_
    exact List.cons_subset_cons _ fun t ht => List.mem_cons_of_mem _ (List.mem_cons_of_mem _ ht)
  | case6 => cases h
  | case7 => cases h; exact blames_self (by simp) _

/-- The reader of lists blames the bracket that opens the list or one of the tokens behind it. -/
theorem blames_of_readList {opening : Token} {tokens : List Token} {e : SyntaxError}
    (h : readList opening tokens = .error e) : Blames (opening :: tokens) e := by
  cases tokens with
  | nil => exact blames_of_readItems h
  | cons token rest =>
    rw [readList] at h
    split at h
    · cases h
    · exact blames_of_readItems h

/-- The items that are read are followed by what is left of the tokens. -/
theorem isSuffix_of_readItems {opening : Token} {tokens : List Token}
    {read : List Literal × List Token} (h : readItems opening tokens = .ok read) :
    read.2 <:+ tokens := by
  fun_induction readItems opening tokens generalizing read with
  | case1 => cases h
  | case2 => cases h
  | case3 => cases h
  | case4 => cases h; exact ⟨[_, _], rfl⟩
  | case5 => cases h
  | case6 token item hitem comma rest hcomma items behind hrest ih =>
    cases h
    exact (ih hrest).trans ⟨[token, comma], rfl⟩
  | case7 => cases h

/-- The list that is read is followed by what is left of the tokens. -/
theorem isSuffix_of_readList {opening : Token} {tokens : List Token}
    {read : List Literal × List Token} (h : readList opening tokens = .ok read) :
    read.2 <:+ tokens := by
  cases tokens with
  | nil => cases h
  | cons token rest =>
    rw [readList] at h
    split at h
    · cases h; exact List.suffix_cons _ _
    · exact isSuffix_of_readItems h

/-- The reader of values blames the key or one of the tokens behind it. -/
theorem blames_of_readValue {key : Token} {tokens : List Token} {e : SyntaxError}
    (h : readValue key tokens = .error e) : Blames (key :: tokens) e := by
  cases tokens with
  | nil => cases h; exact blames_self List.mem_cons_self _
  | cons token rest =>
    rw [readValue] at h
    split at h
    · cases h
    · cases h
    · split at h
      next e' hlist =>
        cases h
        exact (blames_of_readList hlist).mono (List.subset_cons_self _ _)
      next => cases h
    · split at h
      · cases h
      · cases h; exact blames_self (by simp) _

/-- The value that is read is followed by what is left of the tokens. -/
theorem isSuffix_of_readValue {key : Token} {tokens : List Token} {read : Value × List Token}
    (h : readValue key tokens = .ok read) : read.2 <:+ tokens := by
  cases tokens with
  | nil => cases h
  | cons token rest =>
    rw [readValue] at h
    split at h
    · cases h; exact List.suffix_cons _ _
    · cases h; exact List.suffix_cons _ _
    · split at h
      · cases h
      · rename_i items behind hlist
        cases h
        exact (isSuffix_of_readList hlist).trans (List.suffix_cons _ _)
    · split at h
      · cases h; exact List.suffix_cons _ _
      · cases h

/-! ## Statements -/

/-- The reader of parameters blames one of its tokens. -/
theorem blames_of_readParameters {seen : OrderedMap Value} {tokens : List Token} {e : SyntaxError}
    (h : readParameters seen tokens = .error e) : Blames tokens e := by
  fun_induction readParameters seen tokens with
  | case1 => cases h
  | case2 => cases h; exact blames_self List.mem_cons_self _
  | case3 => cases h; exact blames_self List.mem_cons_self _
  | case4 => cases h; exact blames_self List.mem_cons_self _
  | case5 seen key equals rest name hname hequals e' hvalue =>
    cases h
    refine (blames_of_readValue hvalue).mono ?_
    exact List.cons_subset_cons _ (List.subset_cons_self _ _)
  | case6 => cases h; exact blames_self List.mem_cons_self _
  | case7 seen key equals rest name hname hequals value behind hvalue hnew ih =>
    have hsuffix : behind <:+ rest := isSuffix_of_readValue hvalue
    exact (ih h).mono (hsuffix.trans ⟨[key, equals], rfl⟩).subset
  | case8 => cases h; exact blames_self List.mem_cons_self _

/-- The reader of words blames a token or finds no word. -/
theorem blames_of_readWord {text : String} {word : CommandWord} {tokens : List Token}
    {e : SyntaxError} (h : readWord text word tokens = .error e) :
    Blames tokens e ∨ e = ⟨1, String.ofList (Text.trim text.toList), .missingWord word⟩ := by
  cases tokens with
  | nil => cases h; exact .inr rfl
  | cons token rest =>
    rw [readWord] at h
    split at h
    · split at h
      · cases h
      · cases h; exact .inl (blames_self List.mem_cons_self _)
    · cases h; exact .inl (blames_self List.mem_cons_self _)

/-- The word that is read is followed by what is left of the tokens. -/
theorem isSuffix_of_readWord {text : String} {word : CommandWord} {tokens : List Token}
    {read : String × List Token} (h : readWord text word tokens = .ok read) :
    read.2 <:+ tokens := by
  cases tokens with
  | nil => cases h
  | cons token rest =>
    rw [readWord] at h
    split at h
    · split at h
      · cases h; exact List.suffix_cons _ _
      · cases h
    · cases h

/-- The reader of commands blames a token or finds no word. -/
theorem blames_of_readCommand {text : String} {tokens : List Token} {e : SyntaxError}
    (h : readCommand text tokens = .error e) :
    Blames tokens e ∨
      ∃ word, e = ⟨1, String.ofList (Text.trim text.toList), .missingWord word⟩ := by
  rw [readCommand] at h
  split at h
  next e' haction =>
    cases h
    exact (blames_of_readWord haction).imp_right fun he => ⟨_, he⟩
  next action behind haction =>
    have hbehind : behind <:+ tokens := isSuffix_of_readWord haction
    split at h
    next e' hentity =>
      cases h
      exact (blames_of_readWord hentity).imp (·.mono hbehind.subset) fun he => ⟨_, he⟩
    next entity others hentity =>
      have hothers : others <:+ behind := isSuffix_of_readWord hentity
      split at h
      next e' hparameters =>
        cases h
        exact .inl ((blames_of_readParameters hparameters).mono (hothers.trans hbehind).subset)
      next => cases h

/-- What an error of the reader shows: a token, all of the text where a word is missing, or
nothing where there are no tokens. -/
theorem blames_of_ofTokens {text : String} {tokens : List Token} {e : SyntaxError}
    (h : ofTokens text tokens = .error e) :
    Blames tokens e ∨ e = ⟨1, "", .emptyStatement⟩ ∨
      ∃ word, e = ⟨1, String.ofList (Text.trim text.toList), .missingWord word⟩ := by
  have hcommand {tokens : List Token} {name : Option String}
      (h : (readCommand text tokens).map (fun command => (⟨name, command⟩ : Statement)) =
        .error e) : readCommand text tokens = .error e := by
    cases hread : readCommand text tokens with
    | error e' => rw [hread] at h; cases h; rfl
    | ok command => rw [hread] at h; cases h
  unfold ofTokens at h
  split at h
  · cases h; exact .inr (.inl rfl)
  · exact (blames_of_readCommand (hcommand h)).imp_right .inr
  · rename_i first second rest
    split at h
    next hequals =>
      split at h
      next e' hname =>
        cases h
        rw [readName] at hname
        split at hname
        · split at hname
          · cases hname
          · cases hname; exact .inl (blames_self List.mem_cons_self _)
        · cases hname; exact .inl (blames_self List.mem_cons_self _)
      next name hname =>
        have hsuffix : rest <:+ first :: second :: rest := ⟨[first, second], rfl⟩
        exact (blames_of_readCommand (hcommand h)).imp (·.mono hsuffix.subset) .inr
    next => exact (blames_of_readCommand (hcommand h)).imp_right .inr

/-- What an error of a statement shows stands in its text, and the error is on the first line. -/
theorem infix_of_ofText_eq_error {text : String} {e : SyntaxError} (h : ofText text = .error e) :
    e.line = 1 ∧ e.token.toList <:+: text.toList := by
  rw [ofText] at h
  split at h
  next e' htokens =>
    cases h
    exact Token.infix_of_tokensFrom_eq_error htokens
  next tokens htokens =>
    rcases blames_of_ofTokens h with ⟨token, htoken, fault, rfl⟩ | rfl | ⟨word, rfl⟩
    · exact ⟨rfl, Token.lexeme_infix_of_tokensFrom htokens token htoken⟩
    · exact ⟨rfl, List.nil_infix⟩
    · refine ⟨rfl, ?_⟩
      obtain ⟨front, back, -, -, hsplit⟩ := Text.exists_append_trim text.toList
      rw [String.toList_ofList]
      exact ⟨front, back, hsplit.symm⟩

end Runbook.Statement
