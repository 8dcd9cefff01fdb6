import Runbook.Proofs.Token.Spelling
import Runbook.Statement.Reader

/-!
# The grammar of statements

Which kinds of tokens make up a statement, and which statement that is. The reader accepts every
derivation of the grammar and gives the statement that it derives; and it accepts nothing else.

## Main definitions

* `Token.Kind.IsValue`, `Token.Kind.AreParameters`: the tokens of a value and of parameters;
* `Token.Kind.IsCommand`, `Token.Kind.IsStatement`: the tokens of a command and of a statement.

## Main results

* `Statement.ofTokens_of_isStatement`: the reader gives the statement that is derived;
* `Statement.isStatement_of_ofTokens`: what the reader gives is derived;
* `Statement.ofText_of_scans`: a text that is split into the tokens of a statement is read as it.
-/

namespace Runbook

namespace Token.Kind

/-- The literal that a token stands for by itself. -/
inductive IsScalar : Kind → Literal → Prop
  | word (text : String) : IsScalar (.word text) (Literal.ofWord text.toList)
  | quoted (text : String) : IsScalar (.quoted text) (.text text)

/-- The items of a list, at least one, through the bracket that closes it. -/
inductive AreItems : List Kind → List Literal → Prop
  | last {kind : Kind} {item : Literal} : IsScalar kind item → AreItems [kind, .listClose] [item]
  | cons {kind : Kind} {item : Literal} {kinds : List Kind} {items : List Literal} :
      IsScalar kind item → AreItems kinds items →
        AreItems (kind :: .comma :: kinds) (item :: items)

/-- The value of a parameter. -/
inductive IsValue : List Kind → Value → Prop
  | reference (name : String) : IsValue [.reference name] (.reference name)
  | hole (name : String) : IsValue [.hole name] (.hole name)
  | scalar {kind : Kind} {literal : Literal} :
      IsScalar kind literal → IsValue [kind] (.literal literal)
  | emptyList : IsValue [.listOpen, .listClose] (.literal (.list []))
  | list {kinds : List Kind} {items : List Literal} :
      AreItems kinds items → IsValue (.listOpen :: kinds) (.literal (.list items))

/-- Parameters in order. -/
inductive AreParameters : List Kind → List (String × Value) → Prop
  | nil : AreParameters [] []
  | cons {key : String} {kinds others : List Kind} {value : Value}
      {parameters : List (String × Value)} :
      Name.isKey key.toList = true → IsValue kinds value → AreParameters others parameters →
        AreParameters (.word key :: .equals :: kinds ++ others) ((key, value) :: parameters)

/-- A command that has not run; its parameters have pairwise distinct keys. -/
inductive IsCommand : List Kind → Command → Prop
  | mk {action entity : String} {kinds : List Kind} {parameters : OrderedMap Value} :
      Name.isActionWord action.toList = true → Name.isActionWord entity.toList = true →
        AreParameters kinds parameters.entries →
          IsCommand (.word action :: .word entity :: kinds) (.new action entity parameters)

/-- A statement: a command, perhaps behind the name that it declares. -/
inductive IsStatement : List Kind → Statement → Prop
  | command {kinds : List Kind} {command : Command} :
      IsCommand kinds command → IsStatement kinds ⟨none, command⟩
  | declaration {name : String} {kinds : List Kind} {command : Command} :
      Name.isIdentifier name.toList = true → IsCommand kinds command →
        IsStatement (.word name :: .equals :: kinds) ⟨some name, command⟩

end Token.Kind

open Token (Kind)

namespace Statement

/-! ## Values -/

theorem readItem_of_isScalar {token : Token} {item : Literal} (h : token.kind.IsScalar item) :
    readItem token = .ok item := by
  generalize hkind : token.kind = kind at h
  cases h with
  | word text => simp only [readItem, Token.literal?, hkind]
  | quoted text => simp only [readItem, Token.literal?, hkind]

/-- Items are read up to the bracket that closes their list. -/
theorem readItems_of_areItems (opening : Token) {kinds rest : List Kind} {items : List Literal}
    (h : Kind.AreItems kinds items) {tokens : List Token}
    (htokens : tokens.map Token.kind = kinds ++ rest) :
    ∃ behind, readItems opening tokens = .ok (items, behind) ∧ behind.map Token.kind = rest := by
  -- The derivation says how often the reader goes on, so the induction is on it; the tokens
  -- are whichever have the derived kinds.
  induction h generalizing tokens with
  | last hitem =>
    obtain ⟨token, tail, rfl, rfl, htail⟩ := List.map_eq_cons_iff.mp htokens
    obtain ⟨closing, behind, rfl, hclosing, hbehind⟩ := List.map_eq_cons_iff.mp htail
    refine ⟨behind, ?_, hbehind⟩
    rw [readItems, readItem_of_isScalar hitem]
    simp only [hclosing]
  | cons hitem _ ih =>
    obtain ⟨token, tail, rfl, rfl, htail⟩ := List.map_eq_cons_iff.mp htokens
    obtain ⟨comma, others, rfl, hcomma, hothers⟩ := List.map_eq_cons_iff.mp htail
    obtain ⟨behind, hread, hbehind⟩ := ih hothers
    refine ⟨behind, ?_, hbehind⟩
    rw [readItems, readItem_of_isScalar hitem]
    simp only [hcomma, hread]

private theorem ne_listClose_of_isScalar {kind : Kind} {item : Literal}
    (h : kind.IsScalar item) : kind ≠ .listClose := by
  rintro rfl
  cases h

/-- A list that is not empty does not start with the bracket that closes it. -/
private theorem exists_cons_of_areItems {kinds : List Kind} {items : List Literal}
    (h : Kind.AreItems kinds items) :
    ∃ kind others, kinds = kind :: others ∧ kind ≠ .listClose := by
  cases h with
  | last hitem => exact ⟨_, _, rfl, ne_listClose_of_isScalar hitem⟩
  | cons hitem _ => exact ⟨_, _, rfl, ne_listClose_of_isScalar hitem⟩

/-- A value is read up to its last token. -/
theorem readValue_of_isValue (key : Token) {kinds rest : List Kind} {value : Value}
    (h : Kind.IsValue kinds value) {tokens : List Token}
    (htokens : tokens.map Token.kind = kinds ++ rest) :
    ∃ behind, readValue key tokens = .ok (value, behind) ∧ behind.map Token.kind = rest := by
  cases h with
  | reference name =>
    obtain ⟨token, behind, rfl, hkind, hbehind⟩ := List.map_eq_cons_iff.mp htokens
    exact ⟨behind, by simp only [readValue, hkind], hbehind⟩
  | hole name =>
    obtain ⟨token, behind, rfl, hkind, hbehind⟩ := List.map_eq_cons_iff.mp htokens
    exact ⟨behind, by simp only [readValue, hkind], hbehind⟩
  | scalar hscalar =>
    obtain ⟨token, behind, rfl, hkind, hbehind⟩ := List.map_eq_cons_iff.mp htokens
    refine ⟨behind, ?_, hbehind⟩
    cases hscalar with
    | word text => simp only [readValue, Token.literal?, hkind]
    | quoted text => simp only [readValue, Token.literal?, hkind]
  | emptyList =>
    obtain ⟨opening, tail, rfl, hopening, htail⟩ := List.map_eq_cons_iff.mp htokens
    obtain ⟨closing, behind, rfl, hclosing, hbehind⟩ := List.map_eq_cons_iff.mp htail
    refine ⟨behind, ?_, hbehind⟩
    simp only [readValue, hopening, readList, hclosing, if_true]
  | list hitems =>
    obtain ⟨opening, tail, rfl, hopening, htail⟩ := List.map_eq_cons_iff.mp htokens
    obtain ⟨behind, hread, hbehind⟩ := readItems_of_areItems opening hitems htail
    refine ⟨behind, ?_, hbehind⟩
    -- The reader looks for a closing bracket first; the first item is none.
    obtain ⟨kind, others, rfl, hne⟩ := exists_cons_of_areItems hitems
    obtain ⟨token, others, rfl, rfl, -⟩ := List.map_eq_cons_iff.mp htail
    have hlist : readList opening (token :: others) = readItems opening (token :: others) := by
      rw [readList, if_neg hne]
    simp only [readValue, hopening, hlist, hread]

/-! ## Commands -/

/-- Parameters are read behind those already seen if all their keys are distinct. -/
theorem readParameters_of_areParameters {kinds : List Kind} {parameters : List (String × Value)}
    (h : Kind.AreParameters kinds parameters) {seen : OrderedMap Value} {tokens : List Token}
    (htokens : tokens.map Token.kind = kinds)
    (hdistinct : ((seen.entries ++ parameters).map Prod.fst).Nodup) :
    ∃ all, readParameters seen tokens = .ok all ∧ all.entries = seen.entries ++ parameters := by
  induction h generalizing seen tokens with
  | nil =>
    obtain rfl := List.map_eq_nil_iff.mp htokens
    exact ⟨seen, by rw [readParameters], (List.append_nil _).symm⟩
  | @cons name kinds others value parameters hname hvalue _ ih =>
    obtain ⟨key, tail, rfl, hkey, htail⟩ := List.map_eq_cons_iff.mp htokens
    obtain ⟨equals, values, rfl, hequals, hvalues⟩ := List.map_eq_cons_iff.mp htail
    obtain ⟨behind, hread, hbehind⟩ := readValue_of_isValue key hvalue hvalues
    have hkey? : key.key? = some name := by simp only [Token.key?, hkey, hname, if_true]
    -- `readParameters` refuses a key that it has seen. The keys of `seen` and of what is still to
    -- come are distinct together, which `insert` carries from one parameter to the next.
    have hnew : name ∉ seen.entries.map Prod.fst := by
      rw [List.map_append, List.nodup_append] at hdistinct
      intro hmem
      exact hdistinct.2.2 name hmem name (by simp) rfl
    have hinsert : (seen.insert name value).entries = seen.entries ++ [(name, value)] :=
      OrderedMap.insertEntry_of_not_mem hnew
    have hdistinct' : (((seen.insert name value).entries ++ parameters).map Prod.fst).Nodup := by
      rw [hinsert]
      simpa using hdistinct
    obtain ⟨all, hall, hentries⟩ := ih hbehind hdistinct'
    refine ⟨all, ?_, by rw [hentries, hinsert, List.append_assoc, List.singleton_append]⟩
    have hcontains : seen.contains name = false := OrderedMap.contains_eq_false_iff.mpr hnew
    rw [readParameters]
    simp only [hkey?, hequals, if_true]
    split
    next herror => rw [hread] at herror; cases herror
    next hok =>
      rw [hread] at hok
      cases hok
      rw [hcontains, if_neg Bool.false_ne_true]
      exact hall

theorem readWord_of_isActionWord (text : String) (word : CommandWord) {token : Token}
    {name : String} (rest : List Token) (hkind : token.kind = .word name)
    (hname : Name.isActionWord name.toList = true) :
    readWord text word (token :: rest) = .ok (name, rest) := by
  simp only [readWord, hkind, hname, if_true]

/-- The reader gives the command that the grammar derives. -/
theorem readCommand_of_isCommand (text : String) {kinds : List Kind} {command : Command}
    (h : Kind.IsCommand kinds command) {tokens : List Token}
    (htokens : tokens.map Token.kind = kinds) : readCommand text tokens = .ok command := by
  obtain @⟨_, _, _, parameters, haction, hentity, hparameters⟩ := h
  obtain ⟨first, tail, rfl, hfirst, htail⟩ := List.map_eq_cons_iff.mp htokens
  obtain ⟨second, others, rfl, hsecond, hothers⟩ := List.map_eq_cons_iff.mp htail
  have hdistinct : ((OrderedMap.empty.entries ++ parameters.entries).map Prod.fst).Nodup :=
    parameters.distinct
  obtain ⟨all, hread, hentries⟩ :=
    readParameters_of_areParameters hparameters hothers hdistinct
  obtain rfl := OrderedMap.ext hentries
  rw [readCommand, readWord_of_isActionWord text .action _ hfirst haction]
  simp only [readWord_of_isActionWord text .entity _ hsecond hentity, hread]

/-- The reader gives the statement that the grammar derives. -/
theorem ofTokens_of_isStatement (text : String) {kinds : List Kind} {statement : Statement}
    (h : Kind.IsStatement kinds statement) {tokens : List Token}
    (htokens : tokens.map Token.kind = kinds) : ofTokens text tokens = .ok statement := by
  cases h with
  | command hcommand =>
    have hread := readCommand_of_isCommand text hcommand htokens
    -- The second token is the entity, a word, so the statement is not taken for a declaration.
    obtain ⟨haction, hentity, hparameters⟩ := hcommand
    obtain ⟨first, tail, rfl, hfirst, htail⟩ := List.map_eq_cons_iff.mp htokens
    obtain ⟨second, others, rfl, hsecond, hothers⟩ := List.map_eq_cons_iff.mp htail
    have hne : ¬second.kind = .equals := by
      rw [hsecond]
      exact Kind.noConfusion
    rw [ofTokens, if_neg hne, hread]
    rfl
  | @declaration name _ _ hname hcommand =>
    obtain ⟨first, tail, rfl, hfirst, htail⟩ := List.map_eq_cons_iff.mp htokens
    obtain ⟨second, others, rfl, hsecond, hothers⟩ := List.map_eq_cons_iff.mp htail
    have hread : readName first = .ok name := by
      simp only [readName, hfirst, hname, if_true]
    rw [ofTokens, if_pos hsecond, hread]
    simp only [readCommand_of_isCommand text hcommand hothers]
    rfl

/-! ## What is read -/

theorem isScalar_of_literal? {token : Token} {literal : Literal}
    (h : token.literal? = some literal) : token.kind.IsScalar literal := by
  rw [Token.literal?] at h
  split at h
  next text hkind => cases h; rw [hkind]; exact .word text
  next text hkind => cases h; rw [hkind]; exact .quoted text
  next => cases h

theorem isScalar_of_readItem {token : Token} {item : Literal} (h : readItem token = .ok item) :
    token.kind.IsScalar item := by
  rw [readItem] at h
  split at h
  · cases h
  · cases h
  · cases h
  · split at h
    next literal hliteral => cases h; exact isScalar_of_literal? hliteral
    next => cases h

/-- The items that are read are those of the tokens in front of the rest. -/
theorem areItems_of_readItems {opening : Token} {tokens : List Token}
    {read : List Literal × List Token} (h : readItems opening tokens = .ok read) :
    ∃ kinds, Kind.AreItems kinds read.1 ∧
      tokens.map Token.kind = kinds ++ read.2.map Token.kind := by
  -- Of the seven ways through the reader only two give items: the last item, and one with more.
  fun_induction readItems opening tokens generalizing read with
  | case1 => cases h
  | case2 => cases h
  | case3 => cases h
  | case4 token item hitem closing rest hclosing =>
    cases h
    exact ⟨[token.kind, .listClose], .last (isScalar_of_readItem hitem), by simp [hclosing]⟩
  | case5 => cases h
  | case6 token item hitem comma rest hcomma items behind hrest ih =>
    cases h
    obtain ⟨kinds, hkinds, hmap⟩ := ih hrest
    refine ⟨token.kind :: .comma :: kinds, .cons (isScalar_of_readItem hitem) hkinds, ?_⟩
    rw [List.map_cons, List.map_cons, hcomma, hmap]
    rfl
  | case7 => cases h

/-- The value that is read is that of the tokens in front of the rest. -/
theorem isValue_of_readValue {key : Token} {tokens : List Token} {read : Value × List Token}
    (h : readValue key tokens = .ok read) :
    ∃ kinds, Kind.IsValue kinds read.1 ∧
      tokens.map Token.kind = kinds ++ read.2.map Token.kind := by
  cases tokens with
  | nil => cases h
  | cons token rest =>
    rw [readValue] at h
    split at h
    next name hkind => cases h; exact ⟨[.reference name], .reference name, by simp [hkind]⟩
    next name hkind => cases h; exact ⟨[.hole name], .hole name, by simp [hkind]⟩
    next hopening =>
      split at h
      · cases h
      · rename_i items behind hlist
        cases h
        cases rest with
        | nil => cases hlist
        | cons first others =>
          rw [readList] at hlist
          split at hlist
          next hclosing =>
            cases hlist
            exact ⟨[.listOpen, .listClose], .emptyList, by simp [hopening, hclosing]⟩
          next =>
            obtain ⟨kinds, hkinds, hmap⟩ := areItems_of_readItems hlist
            exact ⟨.listOpen :: kinds, .list hkinds, by rw [List.map_cons, hopening, hmap]; rfl⟩
    next =>
      split at h
      next literal hliteral =>
        cases h
        exact ⟨[token.kind], .scalar (isScalar_of_literal? hliteral), by simp⟩
      next => cases h

theorem kind_of_key? {token : Token} {name : String} (h : token.key? = some name) :
    token.kind = .word name ∧ Name.isKey name.toList = true := by
  rw [Token.key?] at h
  split at h
  next text hkind =>
    split at h
    next hkey => cases h; exact ⟨hkind, hkey⟩
    next => cases h
  next => cases h

/-- The parameters that are read are those of the tokens, behind those already seen. -/
theorem areParameters_of_readParameters {seen all : OrderedMap Value} {tokens : List Token}
    (h : readParameters seen tokens = .ok all) :
    ∃ parameters, Kind.AreParameters (tokens.map Token.kind) parameters ∧
      all.entries = seen.entries ++ parameters := by
  -- A key that was seen is an error, so every parameter that is read goes behind the others.
  fun_induction readParameters seen tokens with
  | case1 seen =>
    cases h
    exact ⟨[], .nil, (List.append_nil _).symm⟩
  | case2 => cases h
  | case3 => cases h
  | case4 => cases h
  | case5 => cases h
  | case6 => cases h
  | case7 seen key equals rest name hname hequals value behind hvalue hnew ih =>
    obtain ⟨parameters, hparameters, hentries⟩ := ih h
    obtain ⟨kinds, hkinds, hmap⟩ := isValue_of_readValue hvalue
    obtain ⟨hkind, hkey⟩ := kind_of_key? hname
    have hinsert : (seen.insert name value).entries = seen.entries ++ [(name, value)] :=
      OrderedMap.insertEntry_of_not_mem
        (OrderedMap.contains_eq_false_iff.mp (Bool.not_eq_true _ ▸ hnew))
    refine ⟨(name, value) :: parameters, ?_, ?_⟩
    · rw [List.map_cons, List.map_cons, hkind, hequals, hmap]
      exact .cons hkey hkinds hparameters
    · rw [hentries, hinsert, List.append_assoc, List.singleton_append]
  | case8 => cases h

theorem kind_of_readWord {text : String} {word : CommandWord} {tokens : List Token}
    {read : String × List Token} (h : readWord text word tokens = .ok read) :
    Name.isActionWord read.1.toList = true ∧
      tokens.map Token.kind = .word read.1 :: read.2.map Token.kind := by
  cases tokens with
  | nil => cases h
  | cons token rest =>
    rw [readWord] at h
    split at h
    next name hkind =>
      split at h
      next hname => cases h; exact ⟨hname, by rw [List.map_cons, hkind]⟩
      next => cases h
    next => cases h

/-- The command that is read is the one that the grammar derives. -/
theorem isCommand_of_readCommand {text : String} {tokens : List Token} {command : Command}
    (h : readCommand text tokens = .ok command) :
    Kind.IsCommand (tokens.map Token.kind) command := by
  rw [readCommand] at h
  split at h
  · cases h
  rename_i action behind haction
  split at h
  · cases h
  rename_i entity others hentity
  split at h
  · cases h
  rename_i parameters hread
  cases h
  obtain ⟨haction, hbehind⟩ := kind_of_readWord haction
  obtain ⟨hentity, hothers⟩ := kind_of_readWord hentity
  obtain ⟨entries, hentries, heq⟩ := areParameters_of_readParameters hread
  obtain rfl : parameters.entries = entries := heq
  rw [hbehind, hothers]
  exact .mk haction hentity hentries

/-- The statement that is read is the one that the grammar derives. -/
theorem isStatement_of_ofTokens {text : String} {tokens : List Token} {statement : Statement}
    (h : ofTokens text tokens = .ok statement) :
    Kind.IsStatement (tokens.map Token.kind) statement := by
  -- A command without a name is read in two places: of one token, and where no `=` is second.
  have hcommand {tokens : List Token}
      (h : (readCommand text tokens).map (fun command => (⟨none, command⟩ : Statement)) =
        .ok statement) : Kind.IsStatement (tokens.map Token.kind) statement := by
    cases hread : readCommand text tokens with
    | error e => rw [hread] at h; cases h
    | ok command => rw [hread] at h; cases h; exact .command (isCommand_of_readCommand hread)
  unfold ofTokens at h
  split at h
  · cases h
  · exact hcommand h
  · rename_i first second rest
    split at h
    next hequals =>
      split at h
      · cases h
      · rename_i name hname
        rw [readName] at hname
        split at hname
        next word hkind =>
          split at hname
          next hidentifier =>
            cases hname
            cases hread : readCommand text rest with
            | error e => rw [hread] at h; cases h
            | ok command =>
              rw [hread] at h
              cases h
              rw [List.map_cons, List.map_cons, hkind, hequals]
              exact .declaration hidentifier (isCommand_of_readCommand hread)
          next => cases hname
        next => cases hname
    next => exact hcommand h

/-! ## Texts -/

/-- A text that is split into the tokens of a statement is read as that statement. -/
theorem ofText_of_scans {text : String} {kinds : List Kind} {statement : Statement}
    (hscans : Token.Scans text.toList kinds) (h : Kind.IsStatement kinds statement) :
    ofText text = .ok statement := by
  obtain ⟨tokens, htokens, hkinds⟩ := hscans 0
  rw [ofText, Token.tokenize, htokens]
  exact ofTokens_of_isStatement text h hkinds

end Statement

end Runbook
