import DataChange.Proofs.Runs
import DataChange.Proofs.Token.Consumed
import DataChange.Proofs.Token.Lexemes
import DataChange.Statement.Compile

/-!
# Runs of the statement compiler

A statement that compiles is compiled by the compiler that its first keyword names
(`compileHead_ok`), and nothing but a semicolon is left after it (`compile_ok`).
-/

namespace DataChange

namespace Statement

variable {env : Environment} {s t : CompilerState} {statement : Statement}

/-- The compilers behind the first keyword of a statement. -/
inductive HeadRuns (env : Environment) (s t : CompilerState) (x : Token) : Statement → Prop
  | insert {i : InsertStatement} (hk : x.kind = .keyword .INSERT ∨ x.kind = .keyword .REPLACE)
      (h : Insert.compile env s = .ok i t) : HeadRuns env s t x (.insert i)
  | update {u : UpdateStatement} (hk : x.kind = .keyword .UPDATE)
      (h : Update.compile env s = .ok u t) : HeadRuns env s t x (.update u)
  | delete {d : DeleteStatement} (hk : x.kind = .keyword .DELETE)
      (h : Delete.compile env s = .ok d t) : HeadRuns env s t x (.delete d)
  | merge {m : MergeStatement} (hk : x.kind = .keyword .MERGE)
      (h : Merge.compile env s = .ok m t) : HeadRuns env s t x (.merge m)
  | truncate {r : TruncateStatement} (hk : x.kind = .keyword .TRUNCATE)
      (h : Truncate.compile env s = .ok r t) : HeadRuns env s t x (.truncate r)
  | call {c : CallStatement} (hk : x.kind = .keyword .CALL)
      (h : Call.compile env s = .ok c t) : HeadRuns env s t x (.call c)

theorem compileHead_ok (h : compileHead env s = .ok statement t) :
    ∃ x rest, s.cursor.rest = x :: rest ∧ HeadRuns env s t x statement := by
  simp only [compileHead, bind_ok, get_ok] at h
  obtain ⟨_, _, ⟨rfl, rfl⟩, h⟩ := h
  cases hrest : s.cursor.rest with
  | nil => simp [hrest, reject_ok] at h
  | cons x rest =>
    refine ⟨x, rest, rfl, ?_⟩
    simp only [hrest] at h
    obtain ⟨m, hm, h⟩ := run_eq h
    split at hm
    · next hk =>
      subst hm
      simp only [bind_ok, pure_ok] at h
      obtain ⟨i, _, hi, rfl, rfl⟩ := h
      exact .insert (.inl hk) hi
    · next hk =>
      subst hm
      simp only [bind_ok, pure_ok] at h
      obtain ⟨u, _, hu, rfl, rfl⟩ := h
      exact .update hk hu
    · next hk =>
      subst hm
      simp only [bind_ok, pure_ok] at h
      obtain ⟨d, _, hd, rfl, rfl⟩ := h
      exact .delete hk hd
    · next hk =>
      subst hm
      simp only [bind_ok, pure_ok] at h
      obtain ⟨m, _, hm, rfl, rfl⟩ := h
      exact .merge hk hm
    · next hk =>
      subst hm
      simp only [bind_ok, pure_ok] at h
      obtain ⟨r, _, hr, rfl, rfl⟩ := h
      exact .truncate hk hr
    · next hk =>
      subst hm
      simp only [bind_ok, pure_ok] at h
      obtain ⟨c, _, hc, rfl, rfl⟩ := h
      exact .call hk hc
    · next hk =>
      -- REPLACE is a statement of one dialect only
      split at hm <;> subst hm
      · simp only [bind_ok, pure_ok] at h
        obtain ⟨i, _, hi, rfl, rfl⟩ := h
        exact .insert (.inr hk) hi
      · simp [reject_ok] at h
    · subst hm
      simp [reject_ok] at h

theorem compile_of_tokenize {text : String} {tokens : List Token}
    (h : tokenize text = .ok tokens) : compile env text s = compileTokens env tokens s := by
  rw [compile, h]
  rfl

/-- A text that compiles is one statement, and its compiler starts at its first token. -/
theorem compile_ok {text : String} (h : compile env text s = .ok statement t) :
    ∃ tokens u c, tokenize text = .ok tokens ∧
      compileHead env { s with cursor := .ofTokens tokens } = .ok statement u ∧
        Reader.finish u.cursor = .ok () c ∧ t = { u with cursor := s.cursor } := by
  simp only [compile, bind_ok, lift_except_ok] at h
  obtain ⟨tokens, _, ⟨htokens, rfl⟩, h⟩ := h
  obtain ⟨v, hv, rfl⟩ := onTokens_ok.1 h
  simp only [bind_ok, pure_ok] at hv
  obtain ⟨_, u, hu, _, _, hlift, rfl, rfl⟩ := hv
  obtain ⟨c, hc, rfl⟩ := lift_reader_compiler_ok.1 hlift
  exact ⟨tokens, u, c, htokens, hu, hc, rfl⟩

/-- A text with given tokens compiles as its first keyword says, if nothing is left after it. -/
theorem compile_iff {text : String} {tokens : List Token} (h : tokenize text = .ok tokens) :
    compile env text s = .ok statement t ↔
      ∃ u c, compileHead env { s with cursor := .ofTokens tokens } = .ok statement u ∧
        Reader.finish u.cursor = .ok () c ∧ t = { u with cursor := s.cursor } := by
  constructor
  · intro hrun
    obtain ⟨tokens', u, c, htokens, hhead, hfinish, rfl⟩ := compile_ok hrun
    cases h.symm.trans htokens
    exact ⟨u, c, hhead, hfinish, rfl⟩
  · rintro ⟨u, c, hhead, hfinish, rfl⟩
    rw [compile_of_tokenize h, compileTokens, onTokens_ok]
    refine ⟨{ u with cursor := c }, ?_, rfl⟩
    simp only [bind_ok, pure_ok]
    exact ⟨statement, u, hhead, (), _, lift_reader_compiler_ok.2 ⟨c, hfinish, rfl⟩, rfl, rfl⟩

/-! ## Given texts -/

/-- The tokens of a text. -/
def tokensOf (text : String) : List Token :=
  (tokenize text).toOption.getD []

/-- The tokens of a text whose characters are given. -/
def scanned (text : String) {chars : List Char} (_ : text = String.ofList chars) : List Token :=
  (scan chars).toOption.getD []

/-- The token of a text at a place. -/
def tokenAt (text : String) {chars : List Char} (htext : text = String.ofList chars) (n : Nat) :
    Token :=
  (scanned text htext).getD n default

theorem tokensOf_eq_scanned {text : String} {chars : List Char}
    (htext : text = String.ofList chars) : tokensOf text = scanned text htext := by
  rw [tokensOf, scanned, tokenize_eq_scan htext]

theorem tokenize_eq {text : String} {chars : List Char} {tokens : List Token}
    (htext : text = String.ofList chars) (h : (scan chars).toOption = some tokens) :
    tokenize text = .ok tokens := by
  rw [tokenize_eq_scan htext]
  cases hscan : scan chars with
  | error e => simp [hscan, Except.toOption] at h
  | ok ts => simpa [hscan, Except.toOption] using h

/-- What some characters compile to on their own. -/
def compileScanned (env : Environment) (chars : List Char) :
    EStateM.Result Failure CompilerState Statement :=
  match scan chars with
  | .ok tokens => compileTokens env tokens .initial
  | .error e => .error (.rejected e) .initial

theorem compile_eq_scanned (env : Environment) {text : String} {chars : List Char}
    (htext : text = String.ofList chars) :
    compile env text .initial = compileScanned env chars := by
  rw [compile, tokenize_eq_scan htext, compileScanned]
  cases scan chars <;> rfl

/-- Whether some characters compile to a statement of which something is computed. -/
def compilesTo (env : Environment) (check : Statement → Bool) (chars : List Char) : Bool :=
  match compileScanned env chars with
  | .ok statement _ => check statement
  | .error .. => false

/-- A text that compiles on its own, with what is computed of the statement. -/
theorem exists_compile (env : Environment) (text : String) (check : Statement → Bool)
    {chars : List Char} (htext : text = String.ofList chars)
    (h : compilesTo env check chars = true) :
    ∃ statement t, compile env text .initial = .ok statement t ∧ check statement = true := by
  rw [compile_eq_scanned env htext]
  unfold compilesTo at h
  split at h
  · next statement t hcompile => exact ⟨statement, t, hcompile, h⟩
  · cases h

/-- The failure of some characters that do not compile. -/
def failureOf? (env : Environment) (chars : List Char) : Option Failure :=
  match compileScanned env chars with
  | .ok .. => none
  | .error failure _ => some failure

/-- A text that does not compile on its own. -/
theorem exists_failure (env : Environment) (text : String) (failure : Failure)
    {chars : List Char} (htext : text = String.ofList chars)
    (h : failureOf? env chars = some failure) :
    ∃ t, compile env text .initial = .error failure t := by
  rw [compile_eq_scanned env htext]
  unfold failureOf? at h
  split at h
  · cases h
  · next t hcompile =>
    cases h
    exact ⟨t, hcompile⟩

end Statement

end DataChange
