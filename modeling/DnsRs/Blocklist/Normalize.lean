import DnsRs.Wire.Grammar

/-!
# Three normalisers

A name reaches the resolver as text, from the configuration (`normalize_name`) or
from a list (`normalize_into`), and as labels in a request (`parse_query`). What is
looked up is the bytes the three leave, so they have to leave the same ones.

* `normalizeInto_spec` — `normalize_into` is `normalize_name`, but for the root and
  for names that do not fit its buffer.
* `asBytes_normalizeName` — the text of a name normalises to the dotted name of its
  labels, which is what `parse_query` extracts.
* `dottedName_eq_iff` — for labels without a dot inside, equal dotted names are equal
  labels up to case.
-/

namespace DnsRs.Blocklist

open Lib Wire

/-! ## The code -/

/-- `char::is_whitespace` -/
def isWhitespace (c : Char) : Bool :=
  (9 ≤ c.toNat && c.toNat ≤ 13) || (0x2000 ≤ c.toNat && c.toNat ≤ 0x200a) ||
    [0x20, 0x85, 0xa0, 0x1680, 0x2028, 0x2029, 0x202f, 0x205f, 0x3000].contains c.toNat

def trimStartMatches (p : Char → Bool) (text : List Char) : List Char := text.dropWhile p

def trimEndMatches (p : Char → Bool) (text : List Char) : List Char :=
  (text.reverse.dropWhile p).reverse

/-- `str::trim` -/
def trim (text : List Char) : List Char :=
  trimEndMatches isWhitespace (trimStartMatches isWhitespace text)

/-- `trim().trim_end_matches('.').trim_start_matches('.')` -/
def trimName (name : List Char) : List Char :=
  trimStartMatches (· == '.') (trimEndMatches (· == '.') (trim name))

/-- `str::as_bytes` -/
def asBytes (text : List Char) : Bytes := text.flatMap String.utf8EncodeChar

/-- `normalize_name` of `util.rs` -/
def normalizeName (name : List Char) : List Char :=
  let trimmed := trimName name
  if trimmed = [] then ['.'] else trimmed.map Char.toLower ++ ['.']

/-- `normalize_into`: the length it returns and the buffer it leaves. -/
def normalizeInto (name : List Char) (buf : Bytes) : Except Fault (Option Nat × Bytes) :=
  let trimmed := asBytes (trimName name)
  -- leave room for the trailing dot
  if trimmed = [] ∨ trimmed.length + 1 > maxNameLen then .ok (none, buf)
  else do
    -- the name is copied, lowered and closed with a dot as a label is
    let buf ← pushLabel buf 0 trimmed
    return (some (trimmed.length + 1), buf)

/-! ## Bytes of a text -/

theorem normalizeName_ne_nil (name : List Char) : normalizeName name ≠ [] := by
  unfold normalizeName
  dsimp only
  split <;> simp

theorem asBytes_ne_nil {text : List Char} (h : text ≠ []) : asBytes text ≠ [] := by
  cases text with
  | nil => exact absurd rfl h
  | cons c text =>
    have hPos : 0 < (String.utf8EncodeChar c).length := by
      rw [String.length_utf8EncodeChar]
      exact Char.utf8Size_pos c
    intro hNil
    rw [asBytes, List.flatMap_cons, List.append_eq_nil_iff] at hNil
    rw [hNil.1] at hPos
    exact absurd hPos (Nat.lt_irrefl 0)

theorem asBytes_append (a b : List Char) : asBytes (a ++ b) = asBytes a ++ asBytes b :=
  List.flatMap_append

theorem utf8EncodeChar_ascii : ∀ n < 128,
    String.utf8EncodeChar (Char.ofNat n) = [UInt8.ofNat n] ∧
    String.utf8EncodeChar (Char.ofNat n).toLower = [asciiLower (UInt8.ofNat n)] := by
  decide +kernel

/-- The bytes of a character that is not ASCII have the top bit set. -/
theorem utf8EncodeChar_high {c : Char} (h : 128 ≤ c.toNat) :
    ∀ b ∈ String.utf8EncodeChar c, 128 ≤ b.toNat := by
  intro b hb
  have hNot : ¬ c.val.toNat ≤ 127 := by
    rw [Char.toNat] at h
    omega
  -- each byte of the longer encodings carries a marker of at least 0x80
  have hMarked : ∀ n marker, 128 ≤ marker → n + marker < 256 →
      128 ≤ (UInt8.ofNat (n + marker)).toNat := by
    intro n marker hLow hHigh
    rw [toNat_ofNat_of_lt hHigh]
    omega
  rw [String.utf8EncodeChar, if_neg hNot] at hb
  by_cases hTwo : c.val.toNat ≤ 2047
  · rw [if_pos hTwo, List.mem_cons, List.mem_singleton] at hb
    rcases hb with rfl | rfl <;> exact hMarked _ _ (by decide) (by omega)
  · rw [if_neg hTwo] at hb
    by_cases hThree : c.val.toNat ≤ 65535
    · rw [if_pos hThree, List.mem_cons, List.mem_cons, List.mem_singleton] at hb
      rcases hb with rfl | rfl | rfl <;> exact hMarked _ _ (by decide) (by omega)
    · rw [if_neg hThree, List.mem_cons, List.mem_cons, List.mem_cons, List.mem_singleton] at hb
      rcases hb with rfl | rfl | rfl | rfl <;> exact hMarked _ _ (by decide) (by omega)

theorem asciiLower_of_high {b : UInt8} (h : 128 ≤ b.toNat) : asciiLower b = b := by
  rw [asciiLower, if_neg]
  rintro ⟨-, hLe⟩
  have := UInt8.le_iff_toNat_le.mp hLe
  have h90 : (90 : UInt8).toNat = 90 := rfl
  omega

/-- Lowering a character lowers its bytes. -/
theorem utf8EncodeChar_toLower (c : Char) :
    String.utf8EncodeChar c.toLower = (String.utf8EncodeChar c).map asciiLower := by
  by_cases hAscii : c.toNat < 128
  · obtain ⟨hSelf, hLower⟩ := utf8EncodeChar_ascii c.toNat hAscii
    rw [Char.ofNat_toNat] at hSelf hLower
    rw [hSelf, hLower]
    rfl
  · -- neither the character nor one of its bytes is a letter of ASCII
    have hSame : c.toLower = c := by
      refine dif_neg ?_
      rintro ⟨-, hLe⟩
      have hZ : c.toNat ≤ 90 := UInt32.le_iff_toNat_le.mp hLe
      omega
    have hBytes : (String.utf8EncodeChar c).map asciiLower = String.utf8EncodeChar c := by
      rw [List.map_congr_left (fun b hb =>
        asciiLower_of_high (utf8EncodeChar_high (Nat.le_of_not_lt hAscii) b hb)), List.map_id']
    rw [hSame, hBytes]

theorem asBytes_toLower (text : List Char) :
    asBytes (text.map Char.toLower) = (asBytes text).map asciiLower := by
  induction text with
  | nil => rfl
  | cons c text ih =>
    rw [List.map_cons, asBytes, List.flatMap_cons, ← asBytes, ih, utf8EncodeChar_toLower,
      ← List.map_append]
    rfl

/-! ## `normalize_into` and `normalize_name` -/

/-- `normalize_name`, in the terms of `normalize_into`. -/
theorem normalizeName_eq (name : List Char) :
    normalizeName name =
      if trimName name = [] then ['.'] else (trimName name).map Char.toLower ++ ['.'] := rfl

theorem normalizeName_eq_root_iff (name : List Char) :
    normalizeName name = ['.'] ↔ trimName name = [] := by
  rw [normalizeName_eq]
  constructor
  · intro h
    by_contra hTrim
    rw [if_neg hTrim, List.append_eq_singleton_iff] at h
    simp [hTrim] at h
  · exact fun h => if_pos h

theorem asBytes_normalizeName_of_ne {name : List Char} (h : trimName name ≠ []) :
    asBytes (normalizeName name) = (asBytes (trimName name)).map asciiLower ++ [dot] := by
  rw [normalizeName_eq, if_neg h, asBytes_append, asBytes_toLower]
  rfl

/-- The bytes `normalize_into` is to leave for this text, if any: those of
`normalize_name`, but the root has none and neither has what does not fit. -/
def normalizedBytes (name : List Char) : Option Bytes :=
  if normalizeName name = ['.'] ∨ maxNameLen < (asBytes (normalizeName name)).length then none
  else some (asBytes (normalizeName name))

theorem normalizeInto_spec (name : List Char) {buf : Bytes} (hBuf : buf.length = maxNameLen) :
    ∃ buf', normalizeInto name buf = .ok ((normalizedBytes name).map List.length, buf') ∧
      buf'.length = maxNameLen ∧ ∀ bytes ∈ normalizedBytes name, buf'.take bytes.length = bytes := by
  have hNil : asBytes (trimName name) = [] ↔ trimName name = [] :=
    ⟨fun h => by_contra fun hTrim => asBytes_ne_nil hTrim h, fun h => by rw [h]; rfl⟩
  simp only [normalizeInto, normalizedBytes, normalizeName_eq_root_iff, hNil]
  by_cases hTrim : trimName name = []
  · rw [if_pos (Or.inl hTrim), if_pos (Or.inl hTrim)]
    exact ⟨buf, rfl, hBuf, by simp⟩
  · have hBytes := asBytes_normalizeName_of_ne hTrim
    have hLen : (asBytes (normalizeName name)).length = (asBytes (trimName name)).length + 1 := by
      rw [hBytes, List.length_append, List.length_map, List.length_singleton]
    rw [hLen]
    -- both tests are for a name of more than 255 bytes, its dot included
    by_cases hLong : maxNameLen < (asBytes (trimName name)).length + 1
    · rw [if_pos (Or.inr hLong), if_pos (Or.inr hLong)]
      exact ⟨buf, rfl, hBuf, by simp⟩
    · obtain ⟨buf', hPush, hBuf', hTake⟩ := pushLabel_ok
        (show 0 + (asBytes (trimName name)).length + 1 ≤ buf.length by omega)
      have hKeep := not_or.mpr ⟨hTrim, hLong⟩
      rw [if_neg hKeep, if_neg hKeep, hPush, ok_bind, Option.map_some, hLen]
      refine ⟨buf', rfl, hBuf'.trans hBuf, ?_⟩
      intro bytes hMem
      rw [← Option.some.inj hMem, hLen, hBytes]
      rwa [Nat.zero_add, List.take_zero, List.nil_append] at hTake

/-! ## Texts of a name -/

theorem trimStartMatches_append {p : Char → Bool} {before rest : List Char}
    (hBefore : ∀ c ∈ before, p c = true) (hRest : ∀ c ∈ rest.head?, p c = false) :
    trimStartMatches p (before ++ rest) = rest := by
  rw [trimStartMatches, List.dropWhile_append_of_pos hBefore]
  cases rest with
  | nil => rfl
  | cons c rest =>
    rw [List.dropWhile_cons_of_neg]
    simp [hRest c rfl]

theorem trimEndMatches_append {p : Char → Bool} {rest after : List Char}
    (hAfter : ∀ c ∈ after, p c = true) (hRest : ∀ c ∈ rest.getLast?, p c = false) :
    trimEndMatches p (rest ++ after) = rest := by
  have h := @trimStartMatches_append p after.reverse rest.reverse
    (fun c hc => hAfter c (List.mem_reverse.mp hc))
    (fun c hc => hRest c (by rwa [List.head?_reverse] at hc))
  rw [trimEndMatches, List.reverse_append, ← trimStartMatches, h, List.reverse_reverse]

/-- A part that neither begins nor ends with what is trimmed is all that is left. -/
theorem trimMatches_framed {p : Char → Bool} {before core after : List Char}
    (hBefore : ∀ c ∈ before, p c = true) (hAfter : ∀ c ∈ after, p c = true)
    (hHead : ∀ c ∈ core.head?, p c = false) (hLast : ∀ c ∈ core.getLast?, p c = false) :
    trimEndMatches p (trimStartMatches p (before ++ (core ++ after))) = core ∧
    trimStartMatches p (trimEndMatches p (before ++ (core ++ after))) = core := by
  cases core with
  | nil =>
    -- nothing but what is trimmed
    have hAll : ∀ c ∈ before ++ after, p c = true := by
      intro c hc
      exact (List.mem_append.mp hc).elim (hBefore c) (hAfter c)
    have hStart := @trimStartMatches_append p _ [] hAll (by simp)
    have hEnd := @trimEndMatches_append p [] _ hAll (by simp)
    rw [List.append_nil] at hStart
    rw [List.nil_append] at hEnd
    rw [List.nil_append, hStart, hEnd]
    exact ⟨rfl, rfl⟩
  | cons c core =>
    constructor
    · rw [trimStartMatches_append hBefore (show ∀ d ∈ (c :: core ++ after).head?, _ from hHead),
        trimEndMatches_append hAfter hLast]
    · rw [← List.append_assoc, trimEndMatches_append hAfter, trimStartMatches_append hBefore hHead]
      intro d hd
      rw [List.getLast?_append_of_ne_nil before (List.cons_ne_nil c core)] at hd
      exact hLast d hd

/-- The text of an ASCII label. -/
def asText (label : Bytes) : List Char := label.map fun b => Char.ofNat b.toNat

/-- The labels of a name that can be written as a text: ASCII, without dots and
white space. -/
structure PlainName (labels : List Bytes) : Prop where
  labels_ok : ∀ l ∈ labels, LabelOk l
  ascii : ∀ l ∈ labels, ∀ b ∈ l, b.toNat < 128
  no_dot : ∀ l ∈ labels, dot ∉ l
  no_space : ∀ l ∈ labels, ∀ c ∈ asText l, isWhitespace c = false
  short : (labels.map fun l => l.length + 1).sum ≤ maxNameLen

theorem forall_not_space {text : List Char} (h : (text.all fun c => !isWhitespace c) = true) :
    ∀ c ∈ text, isWhitespace c = false := by
  simpa using h

/-- The labels joined with dots. -/
def joined (labels : List Bytes) : List Char := ['.'].intercalate (labels.map asText)

/-- A text of the name: more dots around the joined labels, and white space around
those. -/
def Spells (text : List Char) (labels : List Bytes) : Prop :=
  ∃ (before after : List Char) (leading trailing : Nat),
    (∀ c ∈ before, isWhitespace c = true) ∧ (∀ c ∈ after, isWhitespace c = true) ∧
    text = before ++ (List.replicate leading '.' ++ (joined labels ++ List.replicate trailing '.') ++
      after)

theorem asBytes_asText {label : Bytes} (h : ∀ b ∈ label, b.toNat < 128) :
    asBytes (asText label) = label := by
  induction label with
  | nil => rfl
  | cons b label ih =>
    rw [asText, List.map_cons, asBytes, List.flatMap_cons, (utf8EncodeChar_ascii _ (h b (by simp))).1,
      ← asText, ← asBytes, ih fun c hc => h c (List.mem_cons_of_mem b hc), ofNat_toNat]
    rfl

theorem asText_ne_dot {label : Bytes} (h : dot ∉ label) (hAscii : ∀ b ∈ label, b.toNat < 128) :
    ∀ c ∈ asText label, (c == '.') = false := by
  have hKey : ∀ n < 128, (Char.ofNat n == '.') = true → UInt8.ofNat n = dot := by decide
  intro c hc
  obtain ⟨b, hb, rfl⟩ := List.mem_map.mp hc
  by_contra hDot
  have := hKey b.toNat (hAscii b hb) (by simpa using hDot)
  rw [ofNat_toNat] at this
  exact h (this ▸ hb)

theorem joined_cons_cons (l m : Bytes) (labels : List Bytes) :
    joined (l :: m :: labels) = asText l ++ '.' :: joined (m :: labels) := by
  rw [joined, List.map_cons, List.map_cons, List.intercalate_cons_cons, joined, List.map_cons,
    List.append_assoc]
  rfl

/-- With a dot behind them, the joined labels are the labels, each with its dot. -/
theorem joined_append_dot {labels : List Bytes} (h : labels ≠ []) :
    joined labels ++ ['.'] = labels.flatMap fun l => asText l ++ ['.'] := by
  induction labels with
  | nil => exact absurd rfl h
  | cons l labels ih =>
    cases labels with
    | nil => simp [joined]
    | cons m labels =>
      have hRest := ih (List.cons_ne_nil m labels)
      rw [List.flatMap_cons, ← hRest, joined_cons_cons]
      simp

theorem asBytes_joined {labels : List Bytes} (h : labels ≠ [])
    (hAscii : ∀ l ∈ labels, ∀ b ∈ l, b.toNat < 128) :
    (asBytes (joined labels)).map asciiLower ++ [dot] = flatName labels := by
  have hDotted : ∀ ls : List Bytes, (∀ l ∈ ls, ∀ b ∈ l, b.toNat < 128) →
      (asBytes (ls.flatMap fun l => asText l ++ ['.'])).map asciiLower = flatName ls := by
    intro ls
    induction ls with
    | nil =>
      intro _
      rfl
    | cons l ls ih =>
      intro hAll
      rw [List.flatMap_cons, asBytes_append, asBytes_append, List.map_append, List.map_append,
        asBytes_asText (hAll l List.mem_cons_self),
        ih fun m hm => hAll m (List.mem_cons_of_mem l hm), flatName_cons]
      rfl
  rw [← hDotted labels hAscii, ← joined_append_dot h, asBytes_append, List.map_append]
  rfl

theorem PlainName.tail {l : Bytes} {labels : List Bytes} (h : PlainName (l :: labels)) :
    PlainName labels where
  labels_ok m hm := h.labels_ok m (List.mem_cons_of_mem l hm)
  ascii m hm := h.ascii m (List.mem_cons_of_mem l hm)
  no_dot m hm := h.no_dot m (List.mem_cons_of_mem l hm)
  no_space m hm := h.no_space m (List.mem_cons_of_mem l hm)
  short := by
    have := h.short
    rw [List.map_cons, List.sum_cons] at this
    omega

theorem PlainName.asText_ne_nil {labels : List Bytes} (h : PlainName labels) :
    ∀ l ∈ labels, asText l ≠ [] := by
  intro l hl hNil
  have hLen := (h.labels_ok l hl).1
  rw [List.map_eq_nil_iff.mp hNil] at hLen
  exact absurd hLen (by decide)

theorem joined_ne_nil {labels : List Bytes} (h : PlainName labels) (hne : labels ≠ []) :
    joined labels ≠ [] := by
  cases labels with
  | nil => exact absurd rfl hne
  | cons l labels =>
    have hText := h.asText_ne_nil l List.mem_cons_self
    cases labels with
    | nil => simpa [joined] using hText
    | cons m labels => simp [joined_cons_cons]

/-- No dot begins or ends the joined labels. -/
theorem joined_ends {labels : List Bytes} (h : PlainName labels) :
    (∀ c ∈ (joined labels).head?, (c == '.') = false) ∧
    ∀ c ∈ (joined labels).getLast?, (c == '.') = false := by
  induction labels with
  | nil => simp [joined]
  | cons l labels ih =>
    have hMem : l ∈ l :: labels := List.mem_cons_self
    have hFree := asText_ne_dot (h.no_dot l hMem) (h.ascii l hMem)
    have hText := h.asText_ne_nil l hMem
    cases labels with
    | nil =>
      have hOne : joined [l] = asText l := by simp [joined]
      rw [hOne]
      exact ⟨fun c hc => hFree c (List.mem_of_mem_head? hc),
        fun c hc => hFree c (List.mem_of_getLast? hc)⟩
    | cons m labels =>
      -- it begins as its first label does and ends as the rest does
      have hRest := joined_ne_nil h.tail (List.cons_ne_nil m labels)
      rw [joined_cons_cons]
      constructor
      · intro c hc
        rw [List.head?_append_of_ne_nil _ hText] at hc
        exact hFree c (List.mem_of_mem_head? hc)
      · intro c hc
        rw [← List.singleton_append, ← List.append_assoc,
          List.getLast?_append_of_ne_nil _ hRest] at hc
        exact (ih h.tail).2 c hc

theorem joined_no_space {labels : List Bytes} (h : PlainName labels) :
    ∀ c ∈ joined labels, isWhitespace c = false := by
  intro c hc
  have hne : labels ≠ [] := by
    rintro rfl
    exact absurd hc (by simp [joined])
  have hDotted : c ∈ joined labels ++ ['.'] := List.mem_append_left _ hc
  rw [joined_append_dot hne, List.mem_flatMap] at hDotted
  obtain ⟨l, hl, hIn⟩ := hDotted
  rcases List.mem_append.mp hIn with hIn | hIn
  · exact h.no_space l hl c hIn
  · rw [List.mem_singleton.mp hIn]
    rfl

theorem trimName_spelled {text : List Char} {labels : List Bytes} (h : PlainName labels)
    (hText : Spells text labels) : trimName text = joined labels := by
  obtain ⟨before, after, leading, trailing, hBefore, hAfter, rfl⟩ := hText
  obtain ⟨hHead, hLast⟩ := joined_ends h
  have hDots : ∀ n, ∀ c ∈ List.replicate n '.', (c == '.') = true := by
    intro n c hc
    rw [List.eq_of_mem_replicate hc]
    rfl
  -- no white space inside, so it is trimmed up to the dots
  have hCore : ∀ c ∈ List.replicate leading '.' ++ (joined labels ++ List.replicate trailing '.'),
      isWhitespace c = false := by
    intro c hc
    rw [List.mem_append, List.mem_append] at hc
    rcases hc with hc | hc | hc
    · rw [List.eq_of_mem_replicate hc]
      rfl
    · exact joined_no_space h c hc
    · rw [List.eq_of_mem_replicate hc]
      rfl
  have hTrim := (trimMatches_framed hBefore hAfter (fun c hc => hCore c (List.mem_of_mem_head? hc))
    (fun c hc => hCore c (List.mem_of_getLast? hc))).1
  rw [trimName, trim, hTrim]
  exact (trimMatches_framed (hDots leading) (hDots trailing) hHead hLast).2

/-- **The text of a name and its labels.** -/
theorem asBytes_normalizeName {text : List Char} {labels : List Bytes} (h : PlainName labels)
    (hText : Spells text labels) : asBytes (normalizeName text) = dottedName labels := by
  have hTrim := trimName_spelled h hText
  by_cases hRoot : labels = []
  · subst hRoot
    rw [(normalizeName_eq_root_iff text).mpr hTrim]
    rfl
  · rw [asBytes_normalizeName_of_ne, hTrim, asBytes_joined hRoot h.ascii, dottedName, if_neg hRoot]
    rw [hTrim]
    exact joined_ne_nil h hRoot

/-! ## Names and requests -/

/-- The same labels, up to the case of ASCII letters. -/
def SameLabels (a b : List Bytes) : Prop :=
  a.map (List.map asciiLower) = b.map (List.map asciiLower)

theorem flatName_eq_lowered (labels : List Bytes) :
    flatName labels = (labels.map (List.map asciiLower)).flatMap fun l => l ++ [dot] := by
  rw [flatName, List.flatMap_map]

theorem SameLabels.dottedName_eq {a b : List Bytes} (h : SameLabels a b) :
    dottedName a = dottedName b := by
  have hNil : a = [] ↔ b = [] := by
    rw [← List.map_eq_nil_iff, h, List.map_eq_nil_iff]
  rw [dottedName, dottedName, flatName_eq_lowered, flatName_eq_lowered, h]
  exact if_congr hNil rfl rfl

/-- **Dotted names and labels.** Where no label has a dot inside, the dotted name
tells the labels up to case. -/
theorem dottedName_eq_iff {a b : List Bytes} (ha : ∀ l ∈ a, LabelOk l) (hb : ∀ l ∈ b, LabelOk l)
    (haDot : ∀ l ∈ a, dot ∉ l) (hbDot : ∀ l ∈ b, dot ∉ l) :
    dottedName a = dottedName b ↔ SameLabels a b := by
  have hFree : ∀ ls : List Bytes, (∀ l ∈ ls, dot ∉ l) → ∀ l ∈ ls.map (List.map asciiLower), dot ∉ l := by
    intro ls hls l hl hMem
    obtain ⟨m, hm, rfl⟩ := List.mem_map.mp hl
    obtain ⟨b, hb, hLower⟩ := List.mem_map.mp hMem
    exact hls m hm ((asciiLower_eq_dot_iff b).mp hLower ▸ hb)
  constructor
  · intro h
    have hFlat := dottedName_inj_flatName ha hb h
    rw [flatName_eq_lowered, flatName_eq_lowered] at hFlat
    exact flatMap_sep_inj (hFree a haDot) (hFree b hbDot) hFlat
  · exact SameLabels.dottedName_eq

/-- The name `parse_query` leaves in the buffer for a request of its grammar. -/
theorem parseQuery_name {RecordType DNSClass : Type} (rr : RrFrom RecordType DNSClass)
    {raw nameBuf : Bytes} {labels : List Bytes} (hBuf : nameBuf.length = maxNameLen)
    (h : Grammar raw labels) : ∃ query nameBuf',
      parseQuery rr raw nameBuf = .ok (query, nameBuf') ∧
      nameBuf'.take query.nameLen = dottedName labels := by
  obtain ⟨b0, b1, b2, b3, opt, nameBuf', -, -, -, -, -, hName, hParse⟩ :=
    @parseQuery_of_grammar _ _ rr _ _ _ hBuf h
  exact ⟨_, nameBuf', hParse, hName⟩

theorem normalizedBytes_spelled {text : List Char} {labels : List Bytes} (h : PlainName labels)
    (hText : Spells text labels) :
    normalizedBytes text = if labels = [] then none else some (dottedName labels) := by
  have hBytes := asBytes_normalizeName h hText
  have hTrim := trimName_spelled h hText
  have hRoot : normalizeName text = ['.'] ↔ labels = [] := by
    rw [normalizeName_eq_root_iff, hTrim]
    constructor
    · intro hNil
      by_contra hne
      exact joined_ne_nil h hne hNil
    · rintro rfl
      rfl
  -- a name that fits its request fits the buffer
  have hShort : (dottedName labels).length ≤ maxNameLen := by
    rw [dottedName]
    split
    · decide
    · rw [length_flatName]
      exact h.short
  have hFits : ¬ maxNameLen < (dottedName labels).length := Nat.not_lt.mpr hShort
  simp only [normalizedBytes, hRoot, hBytes, hFits, or_false]

/-- **Configured names and wire names.** `normalize_into` is `normalize_name` for
every text, up to the root and the names that do not fit. For every text of a name,
both leave what `parse_query` extracts from every request for that name; and of the
requests whose labels have no dot inside, those for that name alone. -/
theorem names_normalise_alike {RecordType DNSClass : Type} (rr : RrFrom RecordType DNSClass)
    {buf nameBuf : Bytes} (hBuf : buf.length = maxNameLen) (hNameBuf : nameBuf.length = maxNameLen) :
    (∀ text : List Char,
      (normalizeName text = ['.'] ∨ maxNameLen < (asBytes (normalizeName text)).length →
        ∃ buf', normalizeInto text buf = .ok (none, buf')) ∧
      (¬ (normalizeName text = ['.'] ∨ maxNameLen < (asBytes (normalizeName text)).length) →
        ∃ len buf', normalizeInto text buf = .ok (some len, buf') ∧
          buf'.take len = asBytes (normalizeName text))) ∧
    ∀ (text : List Char) (labels : List Bytes), PlainName labels → Spells text labels →
      (labels ≠ [] → ∃ len buf', normalizeInto text buf = .ok (some len, buf') ∧
        buf'.take len = asBytes (normalizeName text)) ∧
      (∀ raw wire, Grammar raw wire → SameLabels wire labels → ∃ query nameBuf',
        parseQuery rr raw nameBuf = .ok (query, nameBuf') ∧
        nameBuf'.take query.nameLen = asBytes (normalizeName text)) ∧
      ∀ raw wire query nameBuf', Grammar raw wire → (∀ l ∈ wire, dot ∉ l) →
        parseQuery rr raw nameBuf = .ok (query, nameBuf') →
        (nameBuf'.take query.nameLen = asBytes (normalizeName text) ↔ SameLabels wire labels) := by
  -- the buffer after `normalize_into` has returned a length
  have hSome : ∀ {text : List Char} {bytes : Bytes}, normalizedBytes text = some bytes →
      ∃ len buf', normalizeInto text buf = .ok (some len, buf') ∧ buf'.take len = bytes := by
    intro text bytes h
    obtain ⟨buf', hInto, -, hTake⟩ := normalizeInto_spec text hBuf
    rw [h] at hInto hTake
    exact ⟨bytes.length, buf', hInto, hTake bytes rfl⟩
  refine ⟨fun text => ⟨fun h => ?_, fun h => hSome (if_neg h)⟩, ?_⟩
  · obtain ⟨buf', hInto, -, -⟩ := normalizeInto_spec text hBuf
    rw [normalizedBytes, if_pos h] at hInto
    exact ⟨buf', hInto⟩
  · intro text labels hPlain hText
    have hBytes := asBytes_normalizeName hPlain hText
    rw [hBytes]
    refine ⟨?_, ?_, ?_⟩
    · intro hne
      exact hSome (by rw [normalizedBytes_spelled hPlain hText, if_neg hne])
    · intro raw wire hGrammar hSame
      obtain ⟨query, nameBuf', hParse, hName⟩ := parseQuery_name rr hNameBuf hGrammar
      exact ⟨query, nameBuf', hParse, hName.trans hSame.dottedName_eq⟩
    · intro raw wire query nameBuf' hGrammar hDot hParse
      obtain ⟨query₁, nameBuf₁, hParse₁, hName⟩ := parseQuery_name rr hNameBuf hGrammar
      rw [hParse] at hParse₁
      cases hParse₁
      rw [hName]
      exact dottedName_eq_iff hGrammar.labels_ok hPlain.labels_ok hDot hPlain.no_dot

/-- A text of the name `A.b`, for which `twoLabelQuery` asks as `a.B`. -/
def decoratedText : List Char := [' ', '.', 'A', '.', 'b', '.', '.', '\t']

theorem names_normalise_alike_twoLabel :
    (∃ buf', normalizeInto [' ', '.'] emptyNameBuf = .ok (none, buf')) ∧
    (∃ len buf', normalizeInto decoratedText emptyNameBuf = .ok (some len, buf') ∧
      buf'.take len = asBytes (normalizeName decoratedText)) ∧
    parseQuery plainRr twoLabelQuery emptyNameBuf = .ok (parsedDotQuery 0x1234, dotNameBuf) ∧
    (dotNameBuf.take (parsedDotQuery 0x1234).nameLen = asBytes (normalizeName decoratedText) ↔
      SameLabels [[0x61], [0x42]] [[0x41], [0x62]]) ∧
    SameLabels [[0x61], [0x42]] [[0x41], [0x62]] := by
  have hSpace : ∀ l ∈ ([[0x41], [0x62]] : List Bytes),
      ((asText l).all fun c => !isWhitespace c) = true := by
    decide +kernel
  have hPlain : PlainName [[0x41], [0x62]] :=
    ⟨by simp [LabelOk], by decide +kernel, by decide +kernel,
      fun l hl => forall_not_space (hSpace l hl), by decide⟩
  have hText : Spells decoratedText [[0x41], [0x62]] :=
    ⟨[' '], ['\t'], 1, 2, List.all_eq_true.mp (by decide +kernel),
      List.all_eq_true.mp (by decide +kernel), by decide +kernel⟩
  have hGrammar : Grammar twoLabelQuery [[0x61], [0x42]] :=
    ⟨by decide, ⟨1, rfl, by decide⟩, by decide, by simp [LabelOk], by decide, ⟨[0, 1, 0, 1], rfl⟩,
      by decide⟩
  obtain ⟨hAll, hNames⟩ :=
    names_normalise_alike plainRr length_emptyNameBuf length_emptyNameBuf
  obtain ⟨-, -, hExact⟩ := hNames decoratedText _ hPlain hText
  exact ⟨(hAll [' ', '.']).1 (by decide +kernel), (hAll decoratedText).2 (by decide +kernel),
    parseQuery_twoLabel,
    hExact _ _ _ _ hGrammar (by decide) parseQuery_twoLabel, rfl⟩

end DnsRs.Blocklist
