import Mathlib.Data.List.Flatten
import DnsRs.Blocklist.Lines

/-!
# The names of a list

In `parse_line` hosts files, plain lists and Adblock rules fall through into each
other. Whatever a line was, what is inserted has passed `looks_like_domain`, then
`normalize_into`, then the excluded host names. `looks_like_domain` strips the dots
in front first and `normalize_into` those behind, after white space; for a text that
passes, both leave the same part of it.

* `accepted_blockable` — the shape of every name that is inserted.
* `lineNames_of_passedOver` — the lines without a name: comments, exception rules,
  and rules for a part of a domain.
* `sum_bodyNames_le` — the names take at most twice the bytes of the list, so the
  arena of a fetched one does not wrap.
-/

namespace DnsRs.Blocklist

open Lib Wire DomainIndex

/-! ## Characters of a domain -/

/-- The bytes `looks_like_domain` lets through, lowered. -/
def isNameByte (b : UInt8) : Bool :=
  let n := b.toNat
  (48 ≤ n && n ≤ 57) || (97 ≤ n && n ≤ 122) || [0x2d, 0x2e, 0x5f].contains n

theorem isNameByte_asciiLower {b : UInt8} (h : isDomainByte b = true) :
    isNameByte (asciiLower b) = true := by
  have hAll : ∀ n < 256, isDomainByte (UInt8.ofNat n) = true →
      isNameByte (asciiLower (UInt8.ofNat n)) = true := by
    decide +kernel
  have hb := hAll b.toNat b.toNat_lt
  rw [UInt8.ofNat_toNat] at hb
  exact hb h

/-- What the single byte of a domain's character says about it. -/
structure DomainChar (c : Char) : Prop where
  bytes : String.utf8EncodeChar c = [UInt8.ofNat c.toNat]
  no_space : isWhitespace c = false
  lower_eq_dot : asciiLower (UInt8.ofNat c.toNat) = dot → c = '.'

theorem domainChar_of_bytes {c : Char}
    (h : ∀ b ∈ String.utf8EncodeChar c, isDomainByte b = true) : DomainChar c := by
  have hAll : ∀ n < 128, isDomainByte (UInt8.ofNat n) = true →
      isWhitespace (Char.ofNat n) = false ∧
      (asciiLower (UInt8.ofNat n) = dot → Char.ofNat n = '.') := by
    decide +kernel
  have hHigh : ∀ n < 256, isDomainByte (UInt8.ofNat n) = true → n < 128 := by
    decide +kernel
  -- a character that is not ASCII has bytes that are in no domain
  have hAscii : c.toNat < 128 := by
    by_contra hNot
    obtain ⟨b, hb⟩ := List.exists_mem_of_ne_nil (String.utf8EncodeChar c) (by simp)
    have hByte := hHigh b.toNat b.toNat_lt
    rw [UInt8.ofNat_toNat] at hByte
    have hLow := hByte (h b hb)
    have hTop := utf8EncodeChar_high (Nat.le_of_not_lt hNot) b hb
    omega
  have hBytes := (utf8EncodeChar_ascii c.toNat hAscii).1
  rw [Char.ofNat_toNat] at hBytes
  have hDomain : isDomainByte (UInt8.ofNat c.toNat) = true := h _ (by rw [hBytes]; simp)
  have hChar := hAll c.toNat hAscii hDomain
  rw [Char.ofNat_toNat] at hChar
  exact ⟨hBytes, hChar.1, hChar.2⟩

theorem asBytes_of_domainChars {text : List Char} (h : ∀ c ∈ text, DomainChar c) :
    asBytes text = text.map fun c => UInt8.ofNat c.toNat := by
  induction text with
  | nil => rfl
  | cons c text ih =>
    rw [asBytes, List.flatMap_cons, (h c List.mem_cons_self).bytes, ← asBytes,
      ih fun d hd => h d (List.mem_cons_of_mem c hd)]
    rfl

/-! ## Trimming -/

/-- It does not matter which end is trimmed first. -/
theorem trimMatches_comm (p : Char → Bool) (text : List Char) :
    trimStartMatches p (trimEndMatches p text) = trimEndMatches p (trimStartMatches p text) := by
  obtain ⟨before, hBefore, hSkip⟩ := trimStartMatches_split p text
  obtain ⟨after, hAfter, hSkip'⟩ := trimEndMatches_split p (trimStartMatches p text)
  have hLast := getLast?_trimEndMatches p (trimStartMatches p text)
  have hFirst := head?_trimStartMatches p text
  -- the core begins with what the text begins with once its front is trimmed
  have hHead : ∀ c ∈ (trimEndMatches p (trimStartMatches p text)).head?, p c = false := by
    intro c hc
    refine hFirst c ?_
    rw [hAfter, Option.mem_def, List.head?_append, hc]
    rfl
  have hFramed := (trimMatches_framed hSkip hSkip' hHead hLast).2
  rw [← hAfter, ← hBefore] at hFramed
  exact hFramed

theorem trim_of_no_space {text : List Char} (h : ∀ c ∈ text, isWhitespace c = false) :
    trim text = text := by
  have hFramed := (@trimMatches_framed isWhitespace [] text [] (by simp) (by simp)
    (fun c hc => h c (List.mem_of_mem_head? hc)) (fun c hc => h c (List.mem_of_getLast? hc))).1
  rwa [List.nil_append, List.append_nil] at hFramed

/-- What `looks_like_domain` looks at. -/
def domainCore (text : List Char) : List Char :=
  trimEndMatches (· == '.') (trimStartMatches (· == '.') text)

theorem trimMatches_sublist (p : Char → Bool) (text : List Char) :
    (trimEndMatches p (trimStartMatches p text)).Sublist text := by
  obtain ⟨before, hBefore, -⟩ := trimStartMatches_split p text
  obtain ⟨after, hAfter, -⟩ := trimEndMatches_split p (trimStartMatches p text)
  have hEnd : (trimEndMatches p (trimStartMatches p text)).Sublist (trimStartMatches p text) := by
    conv_rhs => rw [hAfter]
    exact List.sublist_append_left _ _
  refine hEnd.trans ?_
  conv_rhs => rw [hBefore]
  exact List.sublist_append_right _ _

theorem domainCore_sublist (text : List Char) : (domainCore text).Sublist text :=
  trimMatches_sublist (· == '.') text

/-- A candidate that passes `looks_like_domain`. -/
structure LooksLike (text : List Char) : Prop where
  chars : ∀ c ∈ text, DomainChar c
  bytes : ∀ b ∈ asBytes text, isDomainByte b = true
  nonempty : domainCore text ≠ []
  dotted : '.' ∈ domainCore text

theorem looksLike_of_true {text : List Char} (h : looksLikeDomain text = true) :
    LooksLike text := by
  rw [looksLikeDomain] at h
  simp only [Bool.and_eq_true, Bool.not_eq_true', List.isEmpty_eq_false_iff, List.contains_iff_mem,
    List.all_eq_true] at h
  obtain ⟨⟨hCore, hDot⟩, hBytes⟩ := h
  refine ⟨fun c hc => domainChar_of_bytes fun b hb => hBytes b ?_, hBytes, hCore, hDot⟩
  exact List.mem_flatMap.mpr ⟨c, hc, hb⟩

/-- The normaliser keeps exactly what the test looked at. -/
theorem LooksLike.trimName_eq {text : List Char} (h : LooksLike text) :
    trimName text = domainCore text := by
  rw [trimName, trim_of_no_space fun c hc => (h.chars c hc).no_space, trimMatches_comm]
  rfl

theorem LooksLike.core_chars {text : List Char} (h : LooksLike text) :
    ∀ c ∈ domainCore text, DomainChar c :=
  fun c hc => h.chars c ((domainCore_sublist text).subset hc)

theorem head?_domainCore (text : List Char) : '.' ∉ (domainCore text).head? := by
  intro hDot
  rw [domainCore, ← trimMatches_comm] at hDot
  exact absurd (head?_trimStartMatches _ _ _ hDot) (by decide)

theorem getLast?_domainCore (text : List Char) : '.' ∉ (domainCore text).getLast? := by
  intro hDot
  exact absurd (getLast?_trimEndMatches _ _ _ hDot) (by decide)

/-! ## Accepted names -/

/-- A name that may be blocked: at most 255 bytes of lower-case letters, digits, `-`,
`_` and `.`, with no dot in front, one behind and one before that, and not one of the
host names every machine has. -/
structure Blockable (name : Bytes) : Prop where
  short : name.length ≤ maxNameLen
  bytes : ∀ b ∈ name, isNameByte b = true
  first : name.head? ≠ some dot
  last : ∃ front, name = front ++ [dot] ∧ front.getLast? ≠ some dot ∧ dot ∈ front
  host : name ∉ excludedHostnames

/-- The name of a candidate is its core, lowered, with a dot behind. -/
theorem accepted_eq_some {domain : List Char} {name : Bytes} (h : accepted domain = some name) :
    LooksLike domain ∧ name = (asBytes (domainCore domain)).map asciiLower ++ [dot] ∧
      name.length ≤ maxNameLen ∧ name ∉ excludedHostnames := by
  rw [accepted] at h
  split at h
  · rename_i hLooks
    have hLike := looksLike_of_true hLooks
    obtain ⟨hBytes, hKept⟩ := Option.filter_eq_some_iff.mp h
    rw [normalizedBytes] at hBytes
    split at hBytes
    · cases hBytes
    · rename_i hFits
      cases hBytes
      have hTrim : trimName domain ≠ [] := by
        rw [hLike.trimName_eq]
        exact hLike.nonempty
      refine ⟨hLike, ?_, Nat.le_of_not_lt (not_or.mp hFits).2, ?_⟩
      · rw [asBytes_normalizeName_of_ne hTrim, hLike.trimName_eq]
      · intro hHost
        simp [hHost] at hKept
  · cases h

/-- **The shape of a name.** -/
theorem accepted_blockable {domain : List Char} {name : Bytes} (h : accepted domain = some name) :
    Blockable name := by
  obtain ⟨hLike, rfl, hShort, hHost⟩ := accepted_eq_some h
  -- the core is ASCII, so its bytes are its characters one by one
  have hCore : (asBytes (domainCore domain)).map asciiLower =
      (domainCore domain).map fun c => asciiLower (UInt8.ofNat c.toNat) := by
    rw [asBytes_of_domainChars hLike.core_chars, List.map_map]
    rfl
  have hNotDot : ∀ c ∈ domainCore domain, asciiLower (UInt8.ofNat c.toNat) = dot → c = '.' :=
    fun c hc => (hLike.core_chars c hc).lower_eq_dot
  constructor
  case short => exact hShort
  case bytes =>
    intro b hb
    rcases List.mem_append.mp hb with hb | hb
    · obtain ⟨b', hb', rfl⟩ := List.mem_map.mp hb
      refine isNameByte_asciiLower (hLike.bytes b' ?_)
      exact ((domainCore_sublist domain).flatMap _).subset hb'
    · rw [List.mem_singleton.mp hb]
      decide
  case first =>
    intro hDot
    rw [hCore] at hDot
    cases hChars : domainCore domain with
    | nil => exact hLike.nonempty hChars
    | cons c rest =>
      rw [hChars] at hDot
      have hc := hNotDot c (by rw [hChars]; exact List.mem_cons_self) (Option.some.inj hDot)
      exact head?_domainCore domain (by rw [hChars, hc]; rfl)
  case last =>
    refine ⟨_, rfl, ?_, ?_⟩
    · intro hDot
      rw [hCore, List.getLast?_map, Option.map_eq_some_iff] at hDot
      obtain ⟨c, hc, hLower⟩ := hDot
      have hEq := hNotDot c (List.mem_of_getLast? hc) hLower
      exact getLast?_domainCore domain (hEq ▸ hc)
    · rw [hCore]
      exact List.mem_map.mpr ⟨'.', hLike.dotted, by decide⟩
  case host => exact hHost

/-! ## Lines without a name -/

/-- A line of one word that no domain has. -/
theorem hostWords_of_foreign {c : Char} {line : List Char}
    (hc : (String.utf8EncodeChar c).all isDomainByte = false) (h : c ∈ line)
    (hWord : ∀ c ∈ line, isWhitespace c = false) :
    (hostWords (splitWhitespace line)).filterMap accepted = [] := by
  rw [splitWhitespace, words_of_forall_not (List.ne_nil_of_mem h) hWord, hostWords]
  split
  · rfl
  · rw [List.filterMap_cons_none (accepted_of_foreign hc h)]
    rfl

/-- The parts of a network rule. -/
theorem adblockNetworkRuleDomain_eq_some {line domain : List Char}
    (h : adblockNetworkRuleDomain line = some domain) :
    ∃ options, line = "||".toList ++ (domain ++ '^' :: options) ∧
      (options = [] ∨ options.head? = some '$') := by
  unfold adblockNetworkRuleDomain at h
  split at h
  · rename_i hBars
    obtain ⟨rest, rfl⟩ := List.isPrefixOf_iff_prefix.mp hBars
    have hDrop : ("||".toList ++ rest).drop 2 = rest := rfl
    dsimp only at h
    rw [hDrop] at h
    split at h
    · rename_i hCaret
      split at h
      · cases h
      · split at h
        · cases h
        · rename_i hOptions
          cases h
          -- the rest splits at its first caret
          obtain ⟨options, hRest⟩ : ∃ options,
              rest.dropWhile (· != '^') = '^' :: options := by
            cases hSplit : rest.dropWhile (· != '^') with
            | nil =>
              have hAll := @List.takeWhile_append_dropWhile _ (· != '^') rest
              rw [hSplit, List.append_nil] at hAll
              rw [← hAll, List.contains_iff_mem] at hCaret
              exact absurd (List.all_eq_true.mp List.all_takeWhile _ hCaret) (by decide)
            | cons c options =>
              have hHead := List.head?_dropWhile_not (· != '^') rest
              rw [hSplit] at hHead
              have hc : c = '^' := by simpa using hHead
              exact ⟨options, by rw [hc]⟩
          rw [hRest, List.drop_one, List.tail_cons] at hOptions
          refine ⟨options, ?_, ?_⟩
          · rw [← hRest, List.takeWhile_append_dropWhile]
          · simpa [or_iff_not_imp_left] using hOptions
    · cases h
  · cases h

/-- A comment. -/
def CommentLine (line : List Char) : Prop :=
  line.find? (fun c => !isWhitespace c) = some '#' ∨ line.find? (fun c => !isWhitespace c) = some '!'

/-- The line is one word that begins like this. -/
def OneWord (front : String) (line : List Char) : Prop :=
  front.toList <+: trim line ∧ ∀ c ∈ trim line, isWhitespace c = false

/-- An exception rule, `@@...`. -/
def ExceptionRule (line : List Char) : Prop := OneWord "@@" line

/-- What a network rule matches: the text behind `||`, up to the options. -/
def rulePattern (rule : List Char) : List Char := (rule.drop 2).takeWhile (· != '$')

/-- A network rule with a wildcard or a path. -/
def NarrowRule (line : List Char) : Prop :=
  OneWord "||" line ∧ ('*' ∈ rulePattern (trim line) ∨ '/' ∈ rulePattern (trim line) ∨
    ∃ before c after, rulePattern (trim line) = before ++ '^' :: c :: after)

/-- The lines no name is derived from. -/
def PassedOver (line : List Char) : Prop :=
  CommentLine line ∨ ExceptionRule line ∨ NarrowRule line

theorem isComment_of_commentLine {line : List Char} (h : CommentLine line) :
    isComment (trim line) = true := by
  rw [isComment_eq, head?_trim]
  rcases h with h | h <;> rw [h] <;> rfl

/-- The domain of a network rule is its pattern, if it is a domain at all. -/
theorem rulePattern_of_accepted {rule domain : List Char} {name : Bytes}
    (hRule : adblockNetworkRuleDomain rule = some domain) (hName : accepted domain = some name) :
    rulePattern rule = domain ++ ['^'] := by
  obtain ⟨options, rfl, hOptions⟩ := adblockNetworkRuleDomain_eq_some hRule
  have hDrop : ("||".toList ++ (domain ++ '^' :: options)).drop 2 = domain ++ '^' :: options := rfl
  have hDomain : ∀ c ∈ domain, (c != '$') = true := by
    intro c hc
    rw [bne_iff_ne]
    rintro rfl
    rw [accepted_of_foreign (by decide) hc] at hName
    cases hName
  rw [rulePattern, hDrop, List.takeWhile_append_of_pos hDomain,
    List.takeWhile_cons_of_pos (by decide)]
  rcases hOptions with rfl | hHead
  · rfl
  · cases options with
    | nil => rfl
    | cons c options =>
      cases hHead
      rfl

theorem lineNames_of_narrowRule {line : List Char} (h : NarrowRule line) : lineNames line = [] := by
  obtain ⟨⟨hBars, hWord⟩, hNarrow⟩ := h
  rw [lineNames]
  split
  · rfl
  · cases hRule : adblockNetworkRuleDomain (trim line) with
    | none =>
      -- not a rule for a domain, so a word with bars in it
      exact hostWords_of_foreign (c := '|') (by decide) (hBars.subset (by decide)) hWord
    | some domain =>
      dsimp only
      cases hName : accepted domain with
      | none => rfl
      | some name =>
        rw [rulePattern_of_accepted hRule hName] at hNarrow
        -- a domain has neither of the characters, nor a caret before the last one
        have hNot : ∀ c, (String.utf8EncodeChar c).all isDomainByte = false → c ∉ domain := by
          intro c hc hMem
          rw [accepted_of_foreign hc hMem] at hName
          cases hName
        rcases hNarrow with hStar | hSlash | ⟨before, c, after, hCaret⟩
        · have := hNot '*' (by decide)
          simp [this] at hStar
        · have := hNot '/' (by decide)
          simp [this] at hSlash
        · exfalso
          refine hNot '^' (by decide) ?_
          have hFront := congrArg List.dropLast hCaret
          rw [List.dropLast_concat, List.dropLast_append_of_ne_nil (by simp)] at hFront
          rw [hFront]
          simp

theorem lineNames_of_passedOver {line : List Char} (h : PassedOver line) : lineNames line = [] := by
  rcases h with hComment | hException | hNarrow
  · rw [lineNames, if_pos (isComment_of_commentLine hComment)]
  · obtain ⟨hFront, hWord⟩ := hException
    have hNone : adblockNetworkRuleDomain (trim line) = none := by
      obtain ⟨rest, hLine⟩ := hFront
      rw [← hLine]
      rfl
    rw [lineNames]
    split
    · rfl
    · rw [hNone]
      exact hostWords_of_foreign (c := '@') (by decide) (hFront.subset (by decide)) hWord
  · exact lineNames_of_narrowRule hNarrow

/-! ## How much a list stores -/

/-- The texts a line offers to `insert_if_valid`. -/
def candidates (rawLine : List Char) : List (List Char) :=
  let line := trim rawLine
  if isComment line then []
  else
    match adblockNetworkRuleDomain line with
    | some domain => [domain]
    | none => hostWords (splitWhitespace line)

theorem lineNames_eq (line : List Char) : lineNames line = (candidates line).filterMap accepted := by
  rw [lineNames, candidates]
  split
  · rfl
  · cases adblockNetworkRuleDomain (trim line) with
    | none => rfl
    | some domain =>
      show (accepted domain).toList = [domain].filterMap accepted
      rw [List.filterMap_eq_flatMap_toList, List.flatMap_singleton]

theorem trim_sublist (text : List Char) : (trim text).Sublist text :=
  trimMatches_sublist isWhitespace text

theorem hostWords_sublist (tokens : List (List Char)) : (hostWords tokens).Sublist tokens := by
  cases tokens with
  | nil => exact List.Sublist.refl _
  | cons first tokens =>
    rw [hostWords]
    split
    · exact List.sublist_cons_self _ _
    · exact List.Sublist.refl _

/-- The candidates stand in the line one after the other. -/
theorem candidates_sublist (line : List Char) : (candidates line).flatten.Sublist line := by
  refine List.Sublist.trans ?_ (trim_sublist line)
  rw [candidates]
  split
  · exact List.nil_sublist _
  · cases hRule : adblockNetworkRuleDomain (trim line) with
    | none => exact (hostWords_sublist _).flatten.trans (flatten_words_sublist _ _)
    | some domain =>
      obtain ⟨options, hLine, -⟩ := adblockNetworkRuleDomain_eq_some hRule
      rw [hLine, List.flatten_singleton]
      exact (List.sublist_append_left _ _).trans (List.sublist_append_right _ _)

/-- So do the lines in the body. -/
theorem lines_sublist (body : List Char) : (lines body).flatten.Sublist body := by
  refine List.Sublist.trans ?_ (flatten_splitOnP_sublist (· == '\n') body)
  rw [lines]
  cases hLast : (body.splitOnP (· == '\n')).getLast? with
  | none =>
    rw [List.getLast?_eq_none_iff.mp hLast]
    exact List.Sublist.refl _
  | some last =>
    conv_rhs => rw [← List.dropLast_append_getLast? last hLast]
    rw [List.flatten_append, List.flatten_append]
    refine List.Sublist.append ?_ ?_
    · -- a line loses at most a carriage return
      rw [← List.flatMap_def, ← List.flatMap_id']
      refine List.Sublist.flatMap_right _ fun line _ => ?_
      split
      · exact List.dropLast_sublist line
      · exact List.Sublist.refl line
    · exact List.filter_sublist.flatten

/-- The names that a list inserts. -/
def bodyNames (body : List Char) : List Bytes := (lines body).flatMap lineNames

theorem length_accepted_le {domain : List Char} {name : Bytes} (h : accepted domain = some name) :
    name.length ≤ 2 * (asBytes domain).length := by
  obtain ⟨hLike, rfl, -, -⟩ := accepted_eq_some h
  have hSub := ((domainCore_sublist domain).flatMap String.utf8EncodeChar).length_le
  have hPos := List.length_pos_of_ne_nil (asBytes_ne_nil hLike.nonempty)
  rw [List.length_append, List.length_map, List.length_singleton]
  rw [← asBytes, ← asBytes] at hSub
  omega

theorem sum_accepted_le (domains : List (List Char)) :
    ((domains.filterMap accepted).map List.length).sum ≤ 2 * (asBytes domains.flatten).length := by
  induction domains with
  | nil => exact Nat.le_refl 0
  | cons domain domains ih =>
    rw [List.flatten_cons, asBytes_append, List.length_append]
    cases hName : accepted domain with
    | none =>
      rw [List.filterMap_cons_none hName]
      omega
    | some name =>
      have := length_accepted_le hName
      rw [List.filterMap_cons_some hName, List.map_cons, List.sum_cons]
      omega

/-- **Size.** -/
theorem sum_bodyNames_le (body : List Char) :
    ((bodyNames body).map List.length).sum ≤ 2 * (asBytes body).length := by
  have hNames : bodyNames body = ((lines body).flatMap candidates).filterMap accepted := by
    rw [bodyNames, List.filterMap_flatMap]
    exact congrArg (List.flatMap · _) (funext lineNames_eq)
  -- the candidates of all lines, in the order of the body
  have hSub : ((lines body).flatMap candidates).flatten.Sublist body := by
    refine List.Sublist.trans ?_ (lines_sublist body)
    rw [← List.flatMap_id', List.flatMap_assoc, ← List.flatMap_id']
    refine List.Sublist.flatMap_right _ fun line _ => ?_
    rw [List.flatMap_id']
    exact candidates_sublist line
  have hBytes := (hSub.flatMap String.utf8EncodeChar).length_le
  rw [← asBytes, ← asBytes] at hBytes
  have hSum := sum_accepted_le ((lines body).flatMap candidates)
  rw [hNames]
  omega

/-- **The names of a list.** Whatever the body is, what is inserted into the index are
names that may be blocked, and none of them is of a line that is passed over. Below
2 GiB, which is above the limit of a fetched list, these are the names the index has. -/
theorem list_names_blockable (hash : Bytes → UInt64) (body : List Char) :
    parseListAsync hash body = (bodyNames body).foldlM (insertNormalized hash)
      (withCapacity ((asBytes body).length / 24)) ∧
    (∀ name ∈ bodyNames body, Blockable name) ∧
    ((asBytes body).length < 2 ^ 31 → ∃ ix listing, parseListAsync hash body = .ok ix ∧
      ix.names = .ok listing ∧ ∀ name, name ∈ listing ↔ name ∈ bodyNames body) ∧
    ∀ line, PassedOver line → lineNames line = [] ∧
      ∀ ix buf, buf.length = maxNameLen → ∃ buf', parseLine hash line ix buf = .ok (ix, buf') := by
  have hParse := @parseListAsync_spec hash body
  have hGood : ∀ name ∈ bodyNames body, Blockable name := by
    intro name hName
    obtain ⟨line, -, hLine⟩ := List.mem_flatMap.mp hName
    rw [lineNames_eq] at hLine
    obtain ⟨domain, -, hDomain⟩ := List.mem_filterMap.mp hLine
    exact accepted_blockable hDomain
  refine ⟨hParse, hGood, ?_, ?_⟩
  · intro hSmall
    have hFits : ((bodyNames body).map List.length).sum < 2 ^ 32 := by
      have := sum_bodyNames_le body
      omega
    obtain ⟨ix, hFold, hWell, hMembers⟩ :=
      @insertNames_spec hash ((asBytes body).length / 24) _ (totalBytes_filter_lt hFits)
    obtain ⟨listing, hListing, -, hMem⟩ := (hWell.isSetOf hMembers).names
    refine ⟨ix, listing, hParse.trans hFold, hListing, fun name => ?_⟩
    rw [hMem, and_iff_right_iff_imp]
    rintro hName rfl
    obtain ⟨front, hFront, -⟩ := (hGood [] hName).last
    simp at hFront
  · intro line hLine
    have hNone := lineNames_of_passedOver hLine
    refine ⟨hNone, fun ix buf hBuf => ?_⟩
    have hSpec := @parseLine_spec hash buf hBuf line
    rw [hNone] at hSpec
    exact (hSpec.unchanged_iff (by simp)).mpr (by simp)

/-- A comment, a rule for a domain and an exception from one. -/
def mixedList : List Char := "! b.org\n||ads.Example.com^$third-party\n@@||a.com^\n".toList

theorem list_names_blockable_mixed :
    (∃ ix listing, parseListAsync flatHash mixedList = .ok ix ∧ ix.names = .ok listing ∧
      asBytes "ads.example.com.".toList ∈ listing ∧ ∀ name ∈ listing, Blockable name) ∧
    ∃ buf', parseLine flatHash "! b.org".toList (withCapacity 0) emptyNameBuf =
      .ok (withCapacity 0, buf') := by
  obtain ⟨-, hGood, hIndex, hPassed⟩ := list_names_blockable flatHash mixedList
  obtain ⟨ix, listing, hParse, hNames, hMem⟩ := hIndex (by decide +kernel)
  have hRule : asBytes "ads.example.com.".toList ∈ bodyNames mixedList := by decide +kernel
  have hComment : CommentLine "! b.org".toList := Or.inr (by decide +kernel)
  exact ⟨⟨ix, listing, hParse, hNames, (hMem _).mpr hRule, fun name hName =>
    hGood name ((hMem name).mp hName)⟩, (hPassed _ (Or.inl hComment)).2 _ _ length_emptyNameBuf⟩

end DnsRs.Blocklist
