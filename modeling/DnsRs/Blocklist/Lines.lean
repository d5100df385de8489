import DnsRs.Lib.Words
import DnsRs.Blocklist.Merge

/-!
# The lines of a list

`parse_line` reads hosts files, plain lists and the network rules of Adblock lists.
A line is a comment if it begins with `#` or `!`. A rule `||domain^` is a candidate,
and so is every word of any other line, up to an address in front. A candidate that
looks like a domain and is not one of the excluded names is inserted.

So a line is judged word by word, and no word knows what stood before it.

* `parseLine_spec`, `parseListAsync_spec` — what a line and a list insert.
* `insertAll_unchanged_iff` — insertions leave the index as it is exactly when it has
  every name already.
* `cosmetic_unchanged_iff` — when a cosmetic rule blocks nothing.
* `trailing_comment_names` — a comment behind a line is more words of the line.
-/

namespace DnsRs.Blocklist

open Lib Wire DomainIndex

/-! ## Addresses

`IpAddr::from_str` of the standard library. Of an address that has been read only
the input behind it is kept. -/

/-- `char::to_digit` -/
def toDigit (radix : Nat) (b : UInt8) : Option Nat :=
  let n := b.toNat
  let digit :=
    if 48 ≤ n ∧ n ≤ 57 then n - 48
    else if 97 ≤ n ∧ n ≤ 122 then n - 87
    else if 65 ≤ n ∧ n ≤ 90 then n - 55
    -- not a digit in any radix
    else radix
  if digit < radix then some digit else none

/-- The digits of a number: its value, their count and the input behind them. -/
def readDigits (radix maxDigits : Nat) : Bytes → Nat → Nat → Option (Nat × Nat × Bytes)
  | [], result, count => some (result, count, [])
  | b :: input, result, count =>
    match toDigit radix b with
    | none => some (result, count, b :: input)
    | some digit =>
      if maxDigits < count + 1 then none
      else readDigits radix maxDigits input (result * radix + digit) (count + 1)

/-- `read_number`, for numbers below `bound` -/
def readNumber (radix maxDigits bound : Nat) (allowZero : Bool) (input : Bytes) : Option Bytes := do
  let (result, count, rest) ← readDigits radix maxDigits input 0 0
  if count = 0 then none
  -- an octal number
  else if allowZero = false ∧ input.head? = some 0x30 ∧ 1 < count then none
  else if result < bound then some rest
  else none

/-- `read_separator` -/
def readSeparator (sep : UInt8) (i : Nat) (inner : Bytes → Option Bytes) (input : Bytes) :
    Option Bytes :=
  if i = 0 then inner input
  else if input.head? = some sep then inner input.tail
  else none

def readIpv4Addr (input : Bytes) : Option Bytes :=
  (List.range 4).foldlM (fun rest i => readSeparator dot i (readNumber 10 3 256 false) rest) input

def colon : UInt8 := 0x3a

/-- `read_groups` with `left` slots to fill, from the `i`-th on: the groups read, whether
the last two are an IPv4 address, and the input behind them. -/
def readGroups : Nat → Nat → Bytes → Nat × Bool × Bytes
  | 0, i, input => (i, false, input)
  | left + 1, i, input =>
    -- an embedded IPv4 address takes two groups
    match if 0 < left then readSeparator colon i readIpv4Addr input else none with
    | some rest => (i + 2, true, rest)
    | none =>
      match readSeparator colon i (readNumber 16 4 65536 true) input with
      | some rest => readGroups left (i + 1) rest
      | none => (i, false, input)

def readIpv6Addr (input : Bytes) : Option Bytes :=
  let (headSize, headIpv4, rest) := readGroups 8 0 input
  if headSize = 8 then some rest
  -- an IPv4 part is not allowed before the colons
  else if headIpv4 then none
  else if rest.take 2 = [colon, colon] then
    some (readGroups (8 - (headSize + 1)) 0 (rest.drop 2)).2.2
  else none

/-- `text.parse::<IpAddr>().is_ok()` -/
def isIpAddr (text : List Char) : Bool :=
  let input := asBytes text
  (readIpv4Addr input).or (readIpv6Addr input) == some []

/-! ## The code -/

def excludedHostnames : List Bytes :=
  ["localhost.", "localhost.localdomain.", "local.", "broadcasthost.", "ip6-localhost.",
    "ip6-loopback.", "ip6-localnet.", "ip6-mcastprefix.", "ip6-allnodes.", "ip6-allrouters.",
    "ip6-allhosts."].map fun host => asBytes host.toList

/-- `b.is_ascii_alphanumeric() || matches!(b, b'-' | b'.' | b'_')` -/
def isDomainByte (b : UInt8) : Bool :=
  let n := b.toNat
  (48 ≤ n && n ≤ 57) || (65 ≤ n && n ≤ 90) || (97 ≤ n && n ≤ 122) || [0x2d, 0x2e, 0x5f].contains n

def looksLikeDomain (s : List Char) : Bool :=
  let trimmed := trimEndMatches (· == '.') (trimStartMatches (· == '.') s)
  !trimmed.isEmpty && trimmed.contains '.' && (asBytes s).all isDomainByte

/-- The domain of `||domain^` and `||domain^$options`. -/
def adblockNetworkRuleDomain (line : List Char) : Option (List Char) :=
  if "||".toList.isPrefixOf line then
    let rest := line.drop 2
    if rest.contains '^' then
      let candidate := rest.takeWhile (· != '^')
      let after := (rest.dropWhile (· != '^')).drop 1
      -- a wildcard or a path in the domain, or a path behind it, is for a part of it only
      if candidate.isEmpty || candidate.contains '*' || candidate.contains '/' then none
      else if !after.isEmpty && after.head? != some '$' then none
      else some candidate
    else none
  else none

def splitWhitespace (line : List Char) : List (List Char) := words isWhitespace line

/-- The lines `parse_line` passes over. -/
def isComment (line : List Char) : Bool :=
  line.isEmpty || line.head? == some '#' || line.head? == some '!'

/-- The words of a hosts-format or plain line that are candidates. -/
def hostWords : List (List Char) → List (List Char)
  | [] => []
  -- hosts format: the first word is an address, the others are its names
  | first :: tokens => if isIpAddr first then tokens else first :: tokens

section Hash

variable (hash : Bytes → UInt64)

def insertIfValid (index : DomainIndex) (buf : Bytes) (domain : List Char) :
    Except Fault (DomainIndex × Bytes) :=
  if looksLikeDomain domain then do
    match ← normalizeInto domain buf with
    | (none, buf) => .ok (index, buf)
    | (some len, buf) =>
      let normalized ← slice buf 0 len
      if normalized = [dot] ∨ normalized ∈ excludedHostnames then .ok (index, buf)
      else
        let index ← index.insertNormalized hash normalized
        .ok (index, buf)
  else .ok (index, buf)

/-- One candidate after the other. -/
def insertAllValid (index : DomainIndex) (buf : Bytes) (domains : List (List Char)) :
    Except Fault (DomainIndex × Bytes) :=
  domains.foldlM (fun state domain => insertIfValid hash state.1 state.2 domain) (index, buf)

def parseLine (rawLine : List Char) (index : DomainIndex) (buf : Bytes) :
    Except Fault (DomainIndex × Bytes) :=
  let line := trim rawLine
  if isComment line then .ok (index, buf)
  else
    match adblockNetworkRuleDomain line with
    | some domain => insertIfValid hash index buf domain
    | none => insertAllValid hash index buf (hostWords (splitWhitespace line))

/-- `str::lines`: a line keeps neither its newline nor a carriage return before it. -/
def lines (body : List Char) : List (List Char) :=
  let pieces := body.splitOnP (· == '\n')
  (pieces.dropLast.map fun line => if line.getLast? = some '\r' then line.dropLast else line) ++
    -- what is behind the last newline is a line if there is something
    pieces.getLast?.toList.filter fun line => !line.isEmpty

/-- `parse_list_async`; the yields do not touch the index. -/
def parseListAsync (body : List Char) : Except Fault DomainIndex := do
  let (index, _) ← (lines body).foldlM (fun state line => parseLine hash line state.1 state.2)
    (withCapacity ((asBytes body).length / 24), emptyNameBuf)
  return index

end Hash

/-! ## What a line inserts -/

/-- The name a candidate is inserted under, if it is. -/
def accepted (domain : List Char) : Option Bytes :=
  if looksLikeDomain domain then
    (normalizedBytes domain).filter fun name => !(name = [dot] ∨ name ∈ excludedHostnames)
  else none

/-- The names a line inserts. -/
def lineNames (rawLine : List Char) : List Bytes :=
  let line := trim rawLine
  if isComment line then []
  else
    match adblockNetworkRuleDomain line with
    | some domain => (accepted domain).toList
    | none => (hostWords (splitWhitespace line)).filterMap accepted

variable {hash : Bytes → UInt64} {ix : DomainIndex} {buf : Bytes}

/-- A step inserts these names into whatever index it is given, and leaves a name
buffer that does not depend on it. -/
def Inserts (hash : Bytes → UInt64) (names : List Bytes)
    (step : DomainIndex → Except Fault (DomainIndex × Bytes)) : Prop :=
  ∃ buf' : Bytes, buf'.length = maxNameLen ∧
    ∀ ix, step ix = (names.foldlM (insertNormalized hash) ix >>= fun ix' => .ok (ix', buf'))

theorem inserts_nil (hBuf : buf.length = maxNameLen) : Inserts hash [] fun ix => .ok (ix, buf) :=
  ⟨buf, hBuf, fun _ => rfl⟩

theorem insertIfValid_spec (hBuf : buf.length = maxNameLen) (domain : List Char) :
    Inserts hash (accepted domain).toList fun ix => insertIfValid hash ix buf domain := by
  simp only [insertIfValid, accepted]
  by_cases hLooks : looksLikeDomain domain = true
  · obtain ⟨buf', hInto, hBuf', hTake⟩ := normalizeInto_spec domain hBuf
    simp only [if_pos hLooks, hInto, ok_bind]
    cases hBytes : normalizedBytes domain with
    | none => exact inserts_nil hBuf'
    | some name =>
      -- the slice of the buffer that is compared and inserted is the normalised name
      have hName := hTake name hBytes
      have hLen : name.length ≤ buf'.length := by
        rw [← hName, List.length_take]
        exact Nat.min_le_right _ _
      have hSlice : slice buf' 0 name.length = .ok name := by
        rw [slice_eq_ok (Nat.zero_le _) hLen, readAt, List.drop_zero, Nat.sub_zero, hName]
      refine ⟨buf', hBuf', fun ix => ?_⟩
      simp only [Option.map_some, hSlice, ok_bind, Option.filter_some]
      by_cases hSkip : name = [dot] ∨ name ∈ excludedHostnames
      · simp [hSkip]
      · simp [hSkip]
  · simp only [if_neg hLooks]
    exact inserts_nil hBuf

/-- A step for each element of a list inserts what the steps insert. -/
theorem Inserts.foldlM {α : Type} {names : α → List Bytes}
    (step : α → DomainIndex → Bytes → Except Fault (DomainIndex × Bytes))
    (h : ∀ a buf, buf.length = maxNameLen → Inserts hash (names a) fun ix => step a ix buf)
    (todo : List α) (hBuf : buf.length = maxNameLen) :
    Inserts hash (todo.flatMap names) fun ix =>
      todo.foldlM (fun state a => step a state.1 state.2) (ix, buf) := by
  induction todo generalizing buf with
  | nil => exact inserts_nil hBuf
  | cons a todo ih =>
    obtain ⟨buf₁, hBuf₁, hStep⟩ := h a buf hBuf
    -- the other steps start from the buffer that this one leaves, whatever the index
    obtain ⟨buf₂, hBuf₂, hRest⟩ := ih hBuf₁
    refine ⟨buf₂, hBuf₂, fun ix => ?_⟩
    dsimp only at hStep hRest ⊢
    rw [List.foldlM_cons, hStep, List.flatMap_cons, List.foldlM_append, bind_assoc, bind_assoc]
    exact congrArg _ (funext hRest)

theorem insertAllValid_spec (hBuf : buf.length = maxNameLen) (domains : List (List Char)) :
    Inserts hash (domains.filterMap accepted) fun ix => insertAllValid hash ix buf domains := by
  have hNames : domains.filterMap accepted = domains.flatMap fun domain => (accepted domain).toList := by
    rw [List.filterMap_eq_flatMap_toList]
  rw [hNames]
  exact Inserts.foldlM (fun domain ix buf => insertIfValid hash ix buf domain)
    (fun domain _ hBuf => insertIfValid_spec hBuf domain) domains hBuf

/-- **What a line inserts.** -/
theorem parseLine_spec (hBuf : buf.length = maxNameLen) (rawLine : List Char) :
    Inserts hash (lineNames rawLine) fun ix => parseLine hash rawLine ix buf := by
  simp only [parseLine, lineNames]
  by_cases hComment : isComment (trim rawLine) = true
  · simp only [if_pos hComment]
    exact inserts_nil hBuf
  · simp only [if_neg hComment]
    cases adblockNetworkRuleDomain (trim rawLine) with
    | some domain => exact insertIfValid_spec hBuf domain
    | none => exact insertAllValid_spec hBuf _

/-- **What a list inserts.** -/
theorem parseListAsync_spec (body : List Char) :
    parseListAsync hash body =
      parseList hash (asBytes body).length ((lines body).flatMap lineNames) := by
  obtain ⟨buf', -, hLines⟩ := Inserts.foldlM (fun line ix buf => parseLine hash line ix buf)
    (fun line _ hBuf => parseLine_spec hBuf line) (lines body) length_emptyNameBuf
  dsimp only at hLines
  rw [parseListAsync, hLines, parseList, bind_assoc]
  exact bind_pure _

/-! ## When nothing is inserted -/

theorem grow_arena {ix' : DomainIndex} (h : ix.grow hash = .ok ix') : ix'.arena = ix.arena := by
  refine foldlM_keeps (I := fun out => out.arena = ix.arena) ?_ rfl h
  intro slot out out' hOut hTurn
  rw [rehashSlot] at hTurn
  split at hTurn
  · cases hTurn
    exact hOut
  · obtain ⟨name, -, hTurn⟩ := bind_eq_ok.mp hTurn
    obtain ⟨i, -, hTurn⟩ := bind_eq_ok.mp hTurn
    cases hTurn
    exact hOut

/-- An insertion finds the name or adds its bytes. -/
theorem insertNormalized_cases {bytes : Bytes} {ix' : DomainIndex}
    (h : ix.insertNormalized hash bytes = .ok ix') (hBytes : bytes ≠ []) :
    (ix.containsBytes hash bytes = .ok true ∧ ix' = ix) ∨ ix.arena.length < ix'.arena.length := by
  rw [insertNormalized, if_neg hBytes] at h
  obtain ⟨found, hFind, h⟩ := bind_eq_ok.mp h
  cases found with
  | some i =>
    cases h
    rw [containsBytes, hFind]
    exact Or.inl ⟨rfl, rfl⟩
  | none =>
    have hLonger : ∀ arena : Bytes, arena.length < (arena ++ bytes).length := by
      intro arena
      rw [List.length_append]
      have := List.length_pos_of_ne_nil hBytes
      omega
    -- the table may be rebuilt first, over the same arena
    dsimp only at h
    split at h
    · obtain ⟨grown, hGrow, h⟩ := bind_eq_ok.mp h
      obtain ⟨i, -, h⟩ := bind_eq_ok.mp h
      cases h
      rw [← grow_arena hGrow]
      exact Or.inr (hLonger grown.arena)
    · rw [ok_bind] at h
      obtain ⟨i, -, h⟩ := bind_eq_ok.mp h
      cases h
      exact Or.inr (hLonger ix.arena)

theorem insertNormalized_of_contains {bytes : Bytes} (h : ix.containsBytes hash bytes = .ok true) :
    ix.insertNormalized hash bytes = .ok ix := by
  rw [containsBytes] at h
  obtain ⟨found, hFind, hSome⟩ := bind_eq_ok.mp h
  by_cases hBytes : bytes = []
  · exact if_pos hBytes
  · rw [insertNormalized, if_neg hBytes, hFind, ok_bind]
    cases found with
    | some i => rfl
    | none => cases hSome

/-- **Insertions that change nothing.** -/
theorem insertAll_unchanged_iff {names : List Bytes} (hNames : ∀ name ∈ names, name ≠ []) :
    names.foldlM (insertNormalized hash) ix = .ok ix ↔
      ∀ name ∈ names, ix.containsBytes hash name = .ok true := by
  induction names with
  | nil => simp [pure_eq_ok]
  | cons name names ih =>
    have hRest := ih fun other hOther => hNames other (List.mem_cons_of_mem name hOther)
    rw [List.foldlM_cons, List.forall_mem_cons, ← hRest]
    constructor
    · intro h
      obtain ⟨ix₁, hInsert, h⟩ := bind_eq_ok.mp h
      rcases insertNormalized_cases hInsert (hNames name List.mem_cons_self) with ⟨hHas, rfl⟩ | hGrown
      · exact ⟨hHas, h⟩
      · -- bytes once added are never taken away
        have hKept : ix₁.arena.length ≤ ix.arena.length := by
          refine foldlM_keeps (I := fun out => ix₁.arena.length ≤ out.arena.length) ?_ le_rfl h
          intro other out out' hOut hTurn
          by_cases hNil : other = []
          · rw [insertNormalized, if_pos hNil] at hTurn
            cases hTurn
            exact hOut
          · rcases insertNormalized_cases hTurn hNil with ⟨-, rfl⟩ | hMore <;> omega
        omega
    · rintro ⟨hHas, h⟩
      rw [insertNormalized_of_contains hHas, ok_bind, h]

/-- **A step that changes nothing.** The index has its names already. -/
theorem Inserts.unchanged_iff {names : List Bytes}
    {step : DomainIndex → Except Fault (DomainIndex × Bytes)} (h : Inserts hash names step)
    (hNames : ∀ name ∈ names, name ≠ []) :
    (∃ buf', step ix = .ok (ix, buf')) ↔ ∀ name ∈ names, ix.containsBytes hash name = .ok true := by
  obtain ⟨buf₁, -, hStep⟩ := h
  rw [← insertAll_unchanged_iff hNames, hStep]
  constructor
  · rintro ⟨buf', h⟩
    obtain ⟨ix', hFold, h⟩ := bind_eq_ok.mp h
    cases h
    exact hFold
  · intro hFold
    rw [hFold]
    exact ⟨buf₁, rfl⟩

theorem Inserts.length_eq {names : List Bytes}
    {step : DomainIndex → Except Fault (DomainIndex × Bytes)} (h : Inserts hash names step)
    {ix' : DomainIndex} {buf' : Bytes} (hOk : step ix = .ok (ix', buf')) : buf'.length = maxNameLen := by
  obtain ⟨buf₁, hBuf₁, hStep⟩ := h
  rw [hStep] at hOk
  obtain ⟨ix₁, -, hPair⟩ := bind_eq_ok.mp hOk
  cases hPair
  exact hBuf₁

theorem accepted_ne_nil {domain : List Char} {name : Bytes} (h : accepted domain = some name) :
    name ≠ [] := by
  rw [accepted] at h
  split at h
  · have hBytes := (Option.filter_eq_some_iff.mp h).1
    rw [normalizedBytes] at hBytes
    split at hBytes
    · cases hBytes
    · cases hBytes
      exact asBytes_ne_nil (normalizeName_ne_nil domain)
  · cases h

/-- The candidate is turned down, or its name is in the index already. -/
def Inert (hash : Bytes → UInt64) (ix : DomainIndex) (domain : List Char) : Prop :=
  ∀ name, accepted domain = some name → ix.containsBytes hash name = .ok true

theorem filterMap_accepted_ne_nil (domains : List (List Char)) :
    ∀ name ∈ domains.filterMap accepted, name ≠ [] := by
  intro name hName
  obtain ⟨domain, -, hDomain⟩ := List.mem_filterMap.mp hName
  exact accepted_ne_nil hDomain

theorem forall_accepted_iff (domains : List (List Char)) :
    (∀ name ∈ domains.filterMap accepted, ix.containsBytes hash name = .ok true) ↔
      ∀ domain ∈ domains, Inert hash ix domain := by
  simp only [List.mem_filterMap, Inert]
  constructor
  · intro h domain hDomain name hName
    exact h name ⟨domain, hDomain, hName⟩
  · rintro h name ⟨domain, hDomain, hName⟩
    exact h domain hDomain name hName

theorem insertIfValid_unchanged_iff (hBuf : buf.length = maxNameLen) (domain : List Char) :
    (∃ buf', insertIfValid hash ix buf domain = .ok (ix, buf')) ↔ Inert hash ix domain := by
  rw [(insertIfValid_spec hBuf domain).unchanged_iff fun name hName =>
    accepted_ne_nil (Option.mem_toList.mp hName)]
  simp only [Option.mem_toList, Inert]

theorem insertAllValid_unchanged_iff (hBuf : buf.length = maxNameLen) (domains : List (List Char)) :
    (∃ buf', insertAllValid hash ix buf domains = .ok (ix, buf')) ↔
      ∀ domain ∈ domains, Inert hash ix domain := by
  rw [(insertAllValid_spec hBuf domains).unchanged_iff (filterMap_accepted_ne_nil domains),
    forall_accepted_iff]

/-! ## Words of a line -/

theorem trimStartMatches_split (p : Char → Bool) (text : List Char) :
    ∃ cut, text = cut ++ trimStartMatches p text ∧ ∀ c ∈ cut, p c = true :=
  ⟨text.takeWhile p, List.takeWhile_append_dropWhile.symm, List.all_eq_true.mp List.all_takeWhile⟩

theorem trimEndMatches_split (p : Char → Bool) (text : List Char) :
    ∃ cut, text = trimEndMatches p text ++ cut ∧ ∀ c ∈ cut, p c = true := by
  obtain ⟨cut, hText, hCut⟩ := trimStartMatches_split p text.reverse
  refine ⟨cut.reverse, ?_, fun c hc => hCut c (List.mem_reverse.mp hc)⟩
  rw [trimEndMatches, ← trimStartMatches, ← List.reverse_append, ← hText, List.reverse_reverse]

theorem head?_trimStartMatches (p : Char → Bool) (text : List Char) :
    ∀ c ∈ (trimStartMatches p text).head?, p c = false := by
  intro c hc
  have h := List.head?_dropWhile_not p text
  rw [trimStartMatches] at hc
  rw [hc] at h
  simpa using h

theorem getLast?_trimEndMatches (p : Char → Bool) (text : List Char) :
    ∀ c ∈ (trimEndMatches p text).getLast?, p c = false := by
  intro c hc
  rw [trimEndMatches, List.getLast?_reverse] at hc
  exact head?_trimStartMatches p text.reverse c hc

theorem splitWhitespace_trim (text : List Char) :
    splitWhitespace (trim text) = splitWhitespace text := by
  obtain ⟨front, hFront, hSpace⟩ := trimStartMatches_split isWhitespace text
  obtain ⟨back, hBack, hSpace'⟩ :=
    trimEndMatches_split isWhitespace (trimStartMatches isWhitespace text)
  rw [splitWhitespace, splitWhitespace, trim, ← words_append_right _ hSpace', ← hBack,
    ← words_append_left hSpace, ← hFront]

/-- A line begins with the first character that is not white space. -/
theorem head?_trim (text : List Char) :
    (trim text).head? = text.find? fun c => !isWhitespace c := by
  obtain ⟨front, hFront, hSpace⟩ := trimStartMatches_split isWhitespace text
  obtain ⟨back, hBack, hSpace'⟩ :=
    trimEndMatches_split isWhitespace (trimStartMatches isWhitespace text)
  have hHead := head?_trimStartMatches isWhitespace text
  have hNone : front.find? (fun c => !isWhitespace c) = none :=
    List.find?_eq_none.mpr (by simpa using hSpace)
  conv_rhs => rw [hFront, List.find?_append, hNone, Option.none_or]
  rw [trim]
  cases hStart : trimStartMatches isWhitespace text with
  | nil => rfl
  | cons c rest =>
    rw [hStart] at hBack hHead
    have hc := hHead c rfl
    rw [List.find?_cons_of_pos (by simp [hc])]
    -- the end is trimmed up to the first character at most
    cases hTrim : trimEndMatches isWhitespace (c :: rest) with
    | cons d trimmed =>
      rw [hTrim, List.cons_append, List.cons.injEq] at hBack
      rw [hBack.1]
      rfl
    | nil =>
      rw [hTrim, List.nil_append] at hBack
      have := hSpace' c (hBack ▸ List.mem_cons_self)
      rw [hc] at this
      cases this

/-- A character that no domain has turns the whole word down. -/
theorem accepted_of_foreign {c : Char} {word : List Char}
    (hc : (String.utf8EncodeChar c).all isDomainByte = false) (h : c ∈ word) :
    accepted word = none := by
  obtain ⟨b, hb, hByte⟩ := List.all_eq_false.mp hc
  have hLooks : looksLikeDomain word = false := by
    rw [looksLikeDomain, Bool.and_eq_false_iff]
    right
    rw [List.all_eq_false]
    exact ⟨b, List.mem_flatMap.mpr ⟨c, h, hb⟩, hByte⟩
  rw [accepted, hLooks]
  rfl

theorem hostWords_append {before : List (List Char)} (h : before ≠ []) (after : List (List Char)) :
    hostWords (before ++ after) = hostWords before ++ after := by
  cases before with
  | nil => exact absurd rfl h
  | cons first tokens =>
    rw [List.cons_append, hostWords, hostWords]
    split <;> rfl

/-- A word that is turned down may as well not be there. -/
theorem filterMap_hostWords {word : List Char} (h : accepted word = none)
    (before after : List (List Char)) :
    (hostWords (before ++ word :: after)).filterMap accepted =
      (hostWords before ++ after).filterMap accepted := by
  cases before with
  | nil =>
    rw [List.nil_append, hostWords, hostWords, List.nil_append]
    split
    · rfl
    · rw [List.filterMap_cons_none h]
  | cons first tokens =>
    rw [hostWords_append (List.cons_ne_nil _ _), List.filterMap_append, List.filterMap_append,
      List.filterMap_cons_none h]

/-! ## Cosmetic rules -/

def cosmeticSeparators : List (List Char) := ["##", "#@#", "#?#"].map String.toList

/-- The text up to its last white space. -/
def upToLastSpace (text : List Char) : List Char := trimEndMatches (fun c => !isWhitespace c) text

/-- The text from its first white space on. -/
def fromFirstSpace (text : List Char) : List Char := trimStartMatches (fun c => !isWhitespace c) text

/-- The word a separator stands in hides what is glued to it, and nothing else. -/
theorem splitWhitespace_around {sep : List Char} (hne : sep ≠ [])
    (hSep : ∀ c ∈ sep, isWhitespace c = false) (before after : List Char) :
    ∃ word, (∀ c ∈ sep, c ∈ word) ∧ splitWhitespace (before ++ (sep ++ after)) =
      splitWhitespace (upToLastSpace before) ++ word :: splitWhitespace (fromFirstSpace after) := by
  obtain ⟨left, hLeft, hLeftWord⟩ := trimEndMatches_split (fun c => !isWhitespace c) before
  obtain ⟨right, hRight, hRightWord⟩ := trimStartMatches_split (fun c => !isWhitespace c) after
  have hEnd := getLast?_trimEndMatches (fun c => !isWhitespace c) before
  have hStart := head?_trimStartMatches (fun c => !isWhitespace c) after
  rw [← upToLastSpace] at hLeft hEnd
  rw [← fromFirstSpace] at hRight hStart
  have hWord : ∀ c ∈ left ++ (sep ++ right), isWhitespace c = false := by
    intro c hc
    rw [List.mem_append, List.mem_append] at hc
    rcases hc with hc | hc | hc
    · simpa using hLeftWord c hc
    · exact hSep c hc
    · simpa using hRightWord c hc
  have hLine : before ++ (sep ++ after) =
      upToLastSpace before ++ ((left ++ (sep ++ right)) ++ fromFirstSpace after) := by
    conv_lhs => rw [hLeft, hRight]
    simp only [List.append_assoc]
  refine ⟨left ++ (sep ++ right), fun c hc => by simp [hc], ?_⟩
  rw [hLine, splitWhitespace, words_append_of_getLast fun c hc => by simpa using hEnd c hc,
    words_append_of_head _ fun c hc => by simpa using hStart c hc,
    words_of_forall_not (by simp [hne]) hWord]
  rfl

theorem mem_cosmeticSeparators {sep : List Char} (h : sep ∈ cosmeticSeparators) :
    '#' ∈ sep ∧ ∀ c ∈ sep, isWhitespace c = false := by
  have hAll : ∀ sep ∈ cosmeticSeparators,
      '#' ∈ sep ∧ (sep.all fun c => !isWhitespace c) = true := by
    decide +kernel
  exact ⟨(hAll sep h).1, forall_not_space (hAll sep h).2⟩

/-- **Cosmetic rules.** A line with a cosmetic separator leaves the index as it is
exactly when it is a comment, or reads as a network rule whose domain is inert, or has
nothing but inert words besides the one the separator stands in and an address in
front. -/
theorem cosmetic_unchanged_iff (hash : Bytes → UInt64) (ix : DomainIndex) {buf : Bytes}
    (hBuf : buf.length = maxNameLen) {sep : List Char} (hSep : sep ∈ cosmeticSeparators)
    (before after : List Char) :
    (∃ buf', parseLine hash (before ++ (sep ++ after)) ix buf = .ok (ix, buf')) ↔
      isComment (trim (before ++ (sep ++ after))) = true ∨
      (∃ domain, adblockNetworkRuleDomain (trim (before ++ (sep ++ after))) = some domain ∧
        Inert hash ix domain) ∨
      (adblockNetworkRuleDomain (trim (before ++ (sep ++ after))) = none ∧
        ∀ word ∈ hostWords (splitWhitespace (upToLastSpace before)) ++
          splitWhitespace (fromFirstSpace after), Inert hash ix word) := by
  obtain ⟨hHash, hSpace⟩ := mem_cosmeticSeparators hSep
  obtain ⟨word, hIn, hWords⟩ :=
    splitWhitespace_around (List.ne_nil_of_mem hHash) hSpace before after
  rw [parseLine]
  by_cases hComment : isComment (trim (before ++ (sep ++ after))) = true
  · simp [hComment]
  · simp only [hComment, Bool.false_eq_true, if_false, false_or]
    cases hRule : adblockNetworkRuleDomain (trim (before ++ (sep ++ after))) with
    | some domain => simp [insertIfValid_unchanged_iff hBuf]
    | none =>
      -- the word with the separator is never a candidate
      have hHosts := filterMap_hostWords (accepted_of_foreign (by decide) (hIn '#' hHash))
        (splitWhitespace (upToLastSpace before)) (splitWhitespace (fromFirstSpace after))
      rw [← forall_accepted_iff, ← hHosts, forall_accepted_iff, ← hWords, splitWhitespace_trim]
      simp [insertAllValid_unchanged_iff hBuf]

/-- All names start their search at the first slot. -/
def flatHash : Bytes → UInt64 := fun _ => 0

/-- A selector with two classes is two candidates. -/
theorem cosmetic_rule_blocks :
    "##".toList ∈ cosmeticSeparators ∧
    (withCapacity 0).containsBytes flatHash (asBytes "a.link.".toList) = .ok false ∧
    (parseLine flatHash ("example.com".toList ++ ("##".toList ++ "div.ad > a.link".toList))
      (withCapacity 0) emptyNameBuf >>= fun state =>
        state.1.containsBytes flatHash (asBytes "a.link.".toList)) = .ok true := by
  decide +kernel

theorem cosmetic_unchanged_iff_selector :
    ∃ buf', parseLine flatHash ("example.com".toList ++ ("##".toList ++ ".ad > div".toList))
      (withCapacity 0) emptyNameBuf = .ok (withCapacity 0, buf') := by
  refine (cosmetic_unchanged_iff flatHash (withCapacity 0) length_emptyNameBuf
    (show "##".toList ∈ cosmeticSeparators by decide +kernel) _ _).mpr (Or.inr (Or.inr ⟨by decide +kernel, ?_⟩))
  have hWords : hostWords (splitWhitespace (upToLastSpace "example.com".toList)) ++
      splitWhitespace (fromFirstSpace ".ad > div".toList) = [">".toList, "div".toList] := by
    decide +kernel
  have hNone : ∀ word ∈ [">".toList, "div".toList], accepted word = none := by decide +kernel
  intro word hWord name hName
  rw [hWords] at hWord
  rw [hNone word hWord] at hName
  cases hName

/-! ## Trailing comments -/

/-- A line is passed over for its first character, if it has one. -/
theorem isComment_eq (line : List Char) :
    isComment line = line.head?.all fun c => c == '#' || c == '!' := by
  cases line with
  | nil => rfl
  | cons c line => simp [isComment]

theorem isComment_trailing {gap : List Char} (hSpace : ∀ c ∈ gap, isWhitespace c = true)
    (body comment : List Char) :
    isComment (trim (body ++ (gap ++ '#' :: comment))) = isComment (trim body) := by
  have hGap : gap.find? (fun c => !isWhitespace c) = none :=
    List.find?_eq_none.mpr (by simpa using hSpace)
  have hHash : ('#' :: comment).find? (fun c => !isWhitespace c) = some '#' :=
    List.find?_cons_of_pos (by decide)
  rw [isComment_eq, isComment_eq, head?_trim, head?_trim, List.find?_append, List.find?_append, hGap,
    Option.none_or, hHash]
  -- behind a blank body the comment begins the line
  cases body.find? fun c => !isWhitespace c <;> rfl

theorem splitWhitespace_ne_nil {text : List Char} (h : isComment (trim text) = false) :
    splitWhitespace text ≠ [] := by
  rw [isComment_eq, head?_trim] at h
  cases hFind : text.find? fun c => !isWhitespace c with
  | none =>
    rw [hFind] at h
    cases h
  | some c =>
    have hc : isWhitespace c = false := by simpa using List.find?_some hFind
    obtain ⟨before, after, rfl⟩ := List.append_of_mem (List.mem_of_find?_eq_some hFind)
    obtain ⟨word, -, hWords⟩ := splitWhitespace_around (List.cons_ne_nil c []) (by simpa using hc)
      before after
    rw [← List.singleton_append, hWords]
    simp

theorem splitWhitespace_trailing {gap : List Char} (hGap : gap ≠ [])
    (hSpace : ∀ c ∈ gap, isWhitespace c = true) (body comment : List Char) :
    splitWhitespace (body ++ (gap ++ '#' :: comment)) =
      splitWhitespace body ++ splitWhitespace ('#' :: comment) := by
  rw [splitWhitespace, words_append_of_head, words_append_left hSpace]
  · rfl
  · intro c hc
    rw [List.head?_append_of_ne_nil _ hGap] at hc
    exact hSpace c (List.mem_of_mem_head? hc)

/-- The words of a comment behind `body` that `parse_line` gets to see. -/
def commentWords (body comment : List Char) : List (List Char) :=
  if isComment (trim body) then [] else splitWhitespace ('#' :: comment)

/-- **Trailing comments.** In a hosts-format or plain line, a comment behind the body
is more candidates: after the names of the body its words are inserted. The index is
the one the body leaves exactly when none of them adds a name. -/
theorem trailing_comment_names (hash : Bytes → UInt64) (ix : DomainIndex) {buf : Bytes}
    (hBuf : buf.length = maxNameLen) {body gap comment : List Char} (hGap : gap ≠ [])
    (hSpace : ∀ c ∈ gap, isWhitespace c = true)
    (hBody : adblockNetworkRuleDomain (trim body) = none)
    (hLine : adblockNetworkRuleDomain (trim (body ++ (gap ++ '#' :: comment))) = none) :
    parseLine hash (body ++ (gap ++ '#' :: comment)) ix buf =
      (parseLine hash body ix buf >>= fun state =>
        insertAllValid hash state.1 state.2 (commentWords body comment)) ∧
    ∀ ix₁ buf₁, parseLine hash body ix buf = .ok (ix₁, buf₁) →
      ((∃ buf₂, parseLine hash (body ++ (gap ++ '#' :: comment)) ix buf = .ok (ix₁, buf₂)) ↔
        ∀ word ∈ commentWords body comment, Inert hash ix₁ word) := by
  have hSplit : parseLine hash (body ++ (gap ++ '#' :: comment)) ix buf =
      (parseLine hash body ix buf >>= fun state =>
        insertAllValid hash state.1 state.2 (commentWords body comment)) := by
    -- both lines are passed over, or both are split into words
    rw [parseLine, parseLine, isComment_trailing hSpace, commentWords, hBody, hLine]
    cases hComment : isComment (trim body) with
    | true => rfl
    | false =>
      simp only [Bool.false_eq_true, if_false, splitWhitespace_trim,
        splitWhitespace_trailing hGap hSpace, insertAllValid,
        hostWords_append (splitWhitespace_ne_nil hComment), List.foldlM_append]
  refine ⟨hSplit, fun ix₁ buf₁ hFirst => ?_⟩
  rw [hSplit, hFirst, ok_bind]
  exact insertAllValid_unchanged_iff ((parseLine_spec hBuf body).length_eq hFirst) _

theorem trailing_comment_inserts :
    (parseLine flatHash "a.com".toList (withCapacity 0) emptyNameBuf >>= fun state =>
      state.1.containsBytes flatHash (asBytes "example.org.".toList)) = .ok false ∧
    (parseLine flatHash ("a.com".toList ++ (" ".toList ++ '#' :: " see example.org".toList))
      (withCapacity 0) emptyNameBuf >>= fun state =>
        state.1.containsBytes flatHash (asBytes "example.org.".toList)) = .ok true := by
  decide +kernel

theorem trailing_comment_names_plain : ∃ ix₁ buf₁ buf₂,
    parseLine flatHash "a.com".toList (withCapacity 0) emptyNameBuf = .ok (ix₁, buf₁) ∧
    parseLine flatHash ("a.com".toList ++ (" ".toList ++ '#' :: " an ad".toList)) (withCapacity 0)
      emptyNameBuf = .ok (ix₁, buf₂) := by
  obtain ⟨-, hSame⟩ := @trailing_comment_names flatHash (withCapacity 0) emptyNameBuf
    length_emptyNameBuf "a.com".toList " ".toList " an ad".toList (by decide +kernel)
    (List.all_eq_true.mp (by decide +kernel)) (by decide +kernel) (by decide +kernel)
  have hWords : ∀ word ∈ commentWords "a.com".toList " an ad".toList, accepted word = none := by
    decide +kernel
  have hOk : (parseLine flatHash "a.com".toList (withCapacity 0) emptyNameBuf).toOption.isSome := by
    decide +kernel
  obtain ⟨⟨ix₁, buf₁⟩, hFirst⟩ := Option.isSome_iff_exists.mp hOk
  have hFirst := toOption_eq_some.mp hFirst
  obtain ⟨buf₂, hLine⟩ := (hSame ix₁ buf₁ hFirst).mpr fun word hWord name hName => by
    rw [hWords word hWord] at hName
    cases hName
  exact ⟨ix₁, buf₁, buf₂, hFirst, hLine⟩

end DnsRs.Blocklist
