import Enkaku.Lib.PosixSh

/-!
# Quoting a value for the shell

`shell-quote.ts`: `shellQuote` puts a value between single quotes, and an embedded quote outside of
them behind a backslash.  Whatever the values are, the shell reads the quoted ones, with a space
between them, as these values and nothing else (`tokens_shellQuote`).
-/

set_option autoImplicit false

namespace Enkaku

open List

open PosixSh

/-- `shellQuote`. -/
def shellQuote (value : List Char) : List Char :=
  '\'' :: (value.flatMap (fun c ↦ if c = '\'' then ['\'', '\\', '\'', '\''] else [c]) ++ ['\''])

/-- From inside the quotes, the rest of a quoted value is read up to the end of the word. -/
theorem lex_shellQuote_body (value : List Char) (pieces : List Piece) (rest : List Char) :
    lex .single (some pieces)
        (value.flatMap (fun c ↦ if c = '\'' then ['\'', '\\', '\'', '\''] else [c]) ++
          '\'' :: rest) =
      lex .plain (some (pieces ++ value.map (.char · true))) rest := by
  induction value generalizing pieces with
  | nil => rw [flatMap_nil, nil_append, lex_unquote, map_nil, append_nil]
  | cons c value ih =>
    have hrest := ih (pieces ++ [.char c true])
    rw [append_assoc, singleton_append] at hrest
    rw [flatMap_cons, append_assoc, map_cons, ← hrest]
    by_cases hc : c = '\''
    · subst hc
      rw [if_pos rfl, cons_append, cons_append, cons_append, cons_append,
        nil_append, lex_unquote, lex_backslash (by decide), lex_quote]
      rfl
    · rw [if_neg hc, singleton_append, lex_single hc]
      rfl

theorem lex_shellQuote (value rest : List Char) :
    lex .plain none (shellQuote value ++ rest) =
      lex .plain (some (value.map (.char · true))) rest := by
  rw [shellQuote, cons_append, append_assoc, singleton_append, lex_quote, lex_shellQuote_body]
  rfl

/-- Quoted values with a space between them. -/
def shellWords (values : List (List Char)) : List Char := [' '].intercalate (values.map shellQuote)

theorem lex_shellWords (values : List (List Char)) :
    lex .plain none (shellWords values) = some (values.map Token.literal) := by
  induction values with
  | nil => rfl
  | cons value values ih =>
    cases values with
    | nil =>
      have h := lex_shellQuote value []
      rw [append_nil] at h
      rw [shellWords, map_cons, map_nil, intercalate_singleton, h]
      rfl
    | cons value' values =>
      rw [shellWords, map_cons, map_cons, intercalate_cons_cons, ← map_cons,
        ← shellWords, append_assoc, lex_shellQuote, singleton_append, lex_space, ih]
      rfl

theorem nul_notMem_shellQuote {value : List Char} (h : '\x00' ∉ value) : '\x00' ∉ shellQuote value := by
  intro hmem
  rw [shellQuote, mem_cons, mem_append, mem_flatMap] at hmem
  rcases hmem with hmem | ⟨c, hc, hmem⟩ | hmem
  · exact nomatch hmem
  · split_ifs at hmem
    · exact nomatch hmem
    · rw [mem_singleton] at hmem
      exact h (hmem ▸ hc)
  · exact nomatch hmem

theorem nul_notMem_shellWords {values : List (List Char)} (h : ∀ value ∈ values, '\x00' ∉ value) :
    '\x00' ∉ shellWords values := by
  induction values with
  | nil => exact not_mem_nil
  | cons value values ih =>
    have hvalue := nul_notMem_shellQuote (h value (.head _))
    have hvalues := ih fun v hv ↦ h v (.tail _ hv)
    cases values with
    | nil => rwa [shellWords, map_cons, map_nil, intercalate_singleton]
    | cons value' values =>
      rw [shellWords, map_cons, map_cons, intercalate_cons_cons, ← map_cons,
        ← shellWords, mem_append, mem_append, not_or, not_or]
      exact ⟨⟨hvalue, by decide⟩, hvalues⟩

/-- **Quoting is injection-proof.**  The shell reads the quoted values as one literal word each, in
their order, and nothing else: no operator, no newline, no expansion. -/
theorem tokens_shellQuote (values : List (List Char)) (h : ∀ value ∈ values, '\x00' ∉ value) :
    tokens (shellWords values) = some (values.map Token.literal) := by
  rw [tokens, if_neg (nul_notMem_shellWords h), lex_shellWords]

/-- A quote, a substitution and a newline in a value; and a value that is empty. -/
theorem tokens_shellQuote_hostile :
    tokens (shellWords ["a'b;$(id)\n`".toList, [], "-rf >".toList]) =
      some [.literal "a'b;$(id)\n`".toList, .literal [], .literal "-rf >".toList] :=
  tokens_shellQuote _ (by decide)

end Enkaku
