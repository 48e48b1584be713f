import Mathlib.Data.List.TakeWhile
import Mathlib.Tactic.Common

/-!
# SQL tokens

Words, single symbols and string literals. A literal ends at its first quote that
is not doubled, and a doubled quote in it stands for one quote. Texts whose ends
do not run into each other have the tokens of both.
-/

namespace Pulseon

inductive Token
  | word (text : List Char)
  | string (value : List Char)
  | symbol (c : Char)
deriving DecidableEq, Repr

/-- The value of a literal whose opening quote has been read, and the text after it. -/
def literalBody : List Char → Option (List Char × List Char)
  | [] => none
  | '\'' :: '\'' :: rest => (literalBody rest).map fun p => ('\'' :: p.1, p.2)
  | '\'' :: rest => some ([], rest)
  | c :: rest => (literalBody rest).map fun p => (c :: p.1, p.2)

def readLiteral : List Char → Option (List Char × List Char)
  | '\'' :: rest => literalBody rest
  | _ => none

def wordChar (c : Char) : Bool := c.isAlphanum || c == '_'

/-- What a text that begins with `c` begins with: a token or a blank. -/
def firstToken (c : Char) (rest : List Char) : Option (List Token × List Char) :=
  if c = '\'' then (literalBody rest).map fun p => ([.string p.1], p.2)
  else if wordChar c then some ([.word (c :: rest.takeWhile wordChar)], rest.dropWhile wordChar)
  else if c.isWhitespace then some ([], rest)
  else some ([.symbol c], rest)

/-- The tokens of a text, in at most that many steps. -/
def lexWithin : Nat → List Char → Option (List Token)
  | _, [] => some []
  | 0, _ :: _ => none
  | fuel + 1, c :: rest => (firstToken c rest).bind fun p => (lexWithin fuel p.2).map (p.1 ++ ·)

def lex (text : List Char) : Option (List Token) := lexWithin text.length text

/-! ## Literals -/

theorem literalBody_suffix {text value rest : List Char} (h : literalBody text = some (value, rest)) :
    ∃ before, text = before ++ '\'' :: rest := by
  induction text using literalBody.induct generalizing value rest with
  | case1 => cases h
  | case2 rest' ih =>
    rw [literalBody, Option.map_eq_some_iff] at h
    obtain ⟨p, hp, he⟩ := h
    cases he
    obtain ⟨before, rfl⟩ := ih hp
    exact ⟨'\'' :: '\'' :: before, rfl⟩
  | case3 rest' hne =>
    rw [literalBody.eq_3 _ hne] at h
    cases h
    exact ⟨[], rfl⟩
  | case4 c rest' hdoubled hquote ih =>
    rw [literalBody.eq_4 _ _ hdoubled hquote, Option.map_eq_some_iff] at h
    obtain ⟨p, hp, he⟩ := h
    cases he
    obtain ⟨before, rfl⟩ := ih hp
    exact ⟨c :: before, rfl⟩

theorem literalBody_append {text value rest : List Char} (h : literalBody text = some (value, rest))
    {next : List Char}
    (hnext : rest ≠ [] ∨ next.head? ≠ some '\'') : literalBody (text ++ next) = some (value, rest ++ next) := by
  induction text using literalBody.induct generalizing value rest with
  | case1 => cases h
  | case2 rest' ih =>
    rw [literalBody, Option.map_eq_some_iff] at h
    obtain ⟨p, hp, he⟩ := h
    cases he
    rw [List.cons_append, List.cons_append, literalBody, ih hp hnext]
    rfl
  | case3 rest' hne =>
    rw [literalBody.eq_3 _ hne] at h
    cases h
    rw [List.cons_append, literalBody.eq_3]
    -- the quote stays the last one of the literal
    intro tail he
    cases rest' with
    | nil =>
      rw [List.nil_append] at he
      exact hnext.elim (fun hn => hn rfl) fun hn => hn (by rw [he]; rfl)
    | cons c rest' =>
      rw [List.cons_append] at he
      obtain ⟨rfl, -⟩ := List.cons.inj he
      exact hne rest' rfl
  | case4 c rest' hdoubled hquote ih =>
    rw [literalBody.eq_4 _ _ hdoubled hquote, Option.map_eq_some_iff] at h
    obtain ⟨p, hp, he⟩ := h
    cases he
    rw [List.cons_append, literalBody.eq_4, ih hp hnext]
    · rfl
    · intro tail hc _
      exact hquote hc
    · intro hc
      exact hquote hc

/-! ## Texts put together -/

/-- What a token can go on with. -/
def joins (c : Char) : Bool := wordChar c || c == '\''

/-- The texts do not run into each other. -/
def Apart (text next : List Char) : Prop :=
  (∀ c, text.getLast? = some c → joins c = false) ∨ ∀ c, next.head? = some c → joins c = false

theorem Apart.suffix {before text next : List Char} (h : Apart (before ++ text) next) : Apart text next := by
  refine h.imp_left fun hlast c hc => hlast c ?_
  rw [List.getLast?_append, hc]
  rfl

theorem Apart.head {text next : List Char} (h : Apart text next) {c : Char} (hc : text.getLast? = some c)
    (hjoins : joins c = true) {d : Char} (hd : next.head? = some d) : joins d = false := by
  rcases h with h | h
  · rw [h c hc] at hjoins
    cases hjoins
  · exact h d hd

theorem firstToken_suffix {c : Char} {rest rest' : List Char} {tokens : List Token}
    (h : firstToken c rest = some (tokens, rest')) : ∃ before, c :: rest = before ++ rest' ∧ before ≠ [] := by
  unfold firstToken at h
  split at h
  · rw [Option.map_eq_some_iff] at h
    obtain ⟨p, hp, he⟩ := h
    cases he
    obtain ⟨before, rfl⟩ := literalBody_suffix hp
    exact ⟨c :: before ++ ['\''], by simp, by simp⟩
  · split at h
    · cases h
      exact ⟨c :: rest.takeWhile wordChar, by rw [List.cons_append, List.takeWhile_append_dropWhile], by simp⟩
    · split at h
      · cases h; exact ⟨[c], rfl, by simp⟩
      · cases h; exact ⟨[c], rfl, by simp⟩

/-- A word that ends before the next text is the word it was. -/
theorem word_append {rest next : List Char}
    (h : rest.dropWhile wordChar ≠ [] ∨ ∀ c, next.head? = some c → wordChar c = false) :
    (rest ++ next).takeWhile wordChar = rest.takeWhile wordChar ∧
      (rest ++ next).dropWhile wordChar = rest.dropWhile wordChar ++ next := by
  have hsplit := @List.takeWhile_append_dropWhile _ wordChar rest
  have hlen := congrArg List.length hsplit
  rw [List.length_append] at hlen
  rw [List.takeWhile_append, List.dropWhile_append]
  by_cases hall : rest.dropWhile wordChar = []
  · have hnext : next.takeWhile wordChar = [] ∧ next.dropWhile wordChar = next := by
      cases next with
      | nil => exact ⟨rfl, rfl⟩
      | cons c next =>
        have hc := h.resolve_left (fun hn => hn hall) c rfl
        simp [hc]
    rw [hall, List.append_nil] at hsplit
    rw [hsplit, if_pos rfl, hall, hnext.1, hnext.2]
    simp
  · have hne : (rest.takeWhile wordChar).length ≠ rest.length := by
      intro e
      exact hall (List.length_eq_zero_iff.mp (by omega))
    rw [if_neg hne, if_neg (by simpa using hall)]
    exact ⟨rfl, rfl⟩

theorem last_of_word {c : Char} {rest : List Char} (hc : wordChar c = true) (hall : rest.dropWhile wordChar = []) :
    ∃ d, (c :: rest).getLast? = some d ∧ joins d = true := by
  have htake : rest.takeWhile wordChar = rest := by
    have hsplit := @List.takeWhile_append_dropWhile _ wordChar rest
    rwa [hall, List.append_nil] at hsplit
  obtain ⟨d, hd⟩ : ∃ d, (c :: rest).getLast? = some d := ⟨_, List.getLast?_eq_some_getLast (by simp)⟩
  have hword : wordChar d = true := by
    rcases List.mem_cons.mp (List.mem_of_getLast? hd) with rfl | hmem
    · exact hc
    · rw [← htake] at hmem
      exact List.mem_takeWhile_imp hmem
  exact ⟨d, hd, by rw [joins, hword, Bool.true_or]⟩

theorem firstToken_append {c : Char} {rest rest' next : List Char} {tokens : List Token}
    (h : firstToken c rest = some (tokens, rest')) (ha : Apart (c :: rest) next) :
    firstToken c (rest ++ next) = some (tokens, rest' ++ next) := by
  unfold firstToken at h ⊢
  by_cases hc : c = '\''
  · rw [if_pos hc, Option.map_eq_some_iff] at h
    obtain ⟨p, hp, he⟩ := h
    cases he
    have hnext : p.2 ≠ [] ∨ next.head? ≠ some '\'' := by
      by_cases hnil : p.2 = []
      · refine Or.inr fun hquote => ?_
        obtain ⟨before, hbefore⟩ := literalBody_suffix hp
        have hlast : (c :: rest).getLast? = some '\'' := by
          rw [hbefore, hnil, ← List.cons_append, List.getLast?_append]
          rfl
        exact absurd (ha.head hlast rfl hquote) (by decide)
      · exact Or.inl hnil
    rw [if_pos hc, literalBody_append hp hnext]
    rfl
  · rw [if_neg hc] at h ⊢
    by_cases hword : wordChar c = true
    · rw [if_pos hword] at h ⊢
      cases h
      have hnext : rest.dropWhile wordChar ≠ [] ∨ ∀ d, next.head? = some d → wordChar d = false := by
        by_cases hall : rest.dropWhile wordChar = []
        · obtain ⟨last, hlast, hjoins⟩ := last_of_word hword hall
          refine Or.inr fun d hd => ?_
          have hd' := ha.head hlast hjoins hd
          rw [joins, Bool.or_eq_false_iff] at hd'
          exact hd'.1
        · exact Or.inl hall
      rw [(word_append hnext).1, (word_append hnext).2]
    · rw [if_neg hword] at h ⊢
      by_cases hspace : c.isWhitespace = true
      · rw [if_pos hspace] at h ⊢
        cases h
        rfl
      · rw [if_neg hspace] at h ⊢
        cases h
        rfl

theorem lexWithin_of_le {fuel fuel' : Nat} {text : List Char} (h : text.length ≤ fuel) (h' : text.length ≤ fuel') :
    lexWithin fuel text = lexWithin fuel' text := by
  induction fuel generalizing fuel' text with
  | zero =>
    obtain rfl : text = [] := List.length_eq_zero_iff.mp (Nat.le_zero.mp h)
    cases fuel' <;> rfl
  | succ fuel ih =>
    cases text with
    | nil => cases fuel' <;> rfl
    | cons c rest =>
      obtain ⟨fuel', rfl⟩ : ∃ n, fuel' = n + 1 := Nat.exists_eq_succ_of_ne_zero fun e => by rw [e] at h'; cases h'
      rw [lexWithin, lexWithin]
      cases hfirst : firstToken c rest with
      | none => rfl
      | some p =>
        obtain ⟨before, hsuffix, hne⟩ := firstToken_suffix hfirst
        have hlen := congrArg List.length hsuffix
        have hpos := List.length_pos_iff.mpr hne
        rw [List.length_append] at hlen
        rw [Option.bind_some, Option.bind_some, @ih fuel' p.2 (by omega) (by omega)]

theorem lexWithin_append {fuel : Nat} {text : List Char} {tokens : List Token}
    (hlex : lexWithin fuel text = some tokens)
    {next : List Char} (ha : Apart text next) {fuel' : Nat} (hfuel : (text ++ next).length ≤ fuel') :
    lexWithin fuel' (text ++ next) = (lex next).map (tokens ++ ·) := by
  induction fuel generalizing fuel' text tokens with
  | zero =>
    cases text with
    | nil =>
      cases hlex
      rw [List.nil_append] at hfuel ⊢
      rw [lexWithin_of_le hfuel (Nat.le_refl _), ← lex]
      simp
    | cons c rest => cases hlex
  | succ fuel ih =>
    cases text with
    | nil =>
      cases hlex
      rw [List.nil_append] at hfuel ⊢
      rw [lexWithin_of_le hfuel (Nat.le_refl _), ← lex]
      simp
    | cons c rest =>
      obtain ⟨fuel', rfl⟩ : ∃ n, fuel' = n + 1 := Nat.exists_eq_succ_of_ne_zero fun e => by
        rw [e] at hfuel; cases hfuel
      rw [lexWithin, Option.bind_eq_some_iff] at hlex
      obtain ⟨⟨first, rest'⟩, hfirst, hrest⟩ := hlex
      rw [Option.map_eq_some_iff] at hrest
      obtain ⟨more, hmore, rfl⟩ := hrest
      obtain ⟨before, hsuffix, hne⟩ := firstToken_suffix hfirst
      have hlen := congrArg List.length hsuffix
      have hpos := List.length_pos_iff.mpr hne
      simp only [List.length_append, List.length_cons] at hlen hfuel
      have hshort : (rest' ++ next).length ≤ fuel' := by
        rw [List.length_append]
        omega
      rw [List.cons_append, lexWithin, firstToken_append hfirst ha, Option.bind_some,
        ih hmore (hsuffix ▸ ha).suffix hshort, Option.map_map]
      congr 1
      funext tokens
      simp

/-- Texts that do not run into each other have the tokens of both. -/
theorem lex_append {text next : List Char} {tokens : List Token} (hlex : lex text = some tokens)
    (ha : Apart text next) :
    lex (text ++ next) = (lex next).map (tokens ++ ·) :=
  lexWithin_append hlex ha (Nat.le_refl _)

end Pulseon
