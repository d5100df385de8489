import DnsRs.Wire.Names

/-!
# The cache identity of a query

`resolve` and `spawn_refresh` key the response cache and the in-flight
registry with the flattened name, QTYPE, QCLASS and the DO/CD flag byte. The
name is flattened without escaping: a byte `0x2e` inside a label becomes the
same dot that separates two labels, so the one-label name `a\.b` and the
two-label name `a.b` share one identity (`identity_collision`).

The flattening loses exactly the places of those literal dots
(`same_question_iff_literalDots`): two requests with one identity ask the
same question if and only if the `0x2e` bytes of their labels stand at the
same offsets. In particular it is enough that no label of either contains
one.
-/

namespace DnsRs.Wire

open Lib

variable {RecordType DNSClass : Type}

/-- The key of the response cache and of the in-flight registry. -/
structure Key (RecordType DNSClass : Type) where
  name : Bytes
  recordType : RecordType
  dnsClass : DNSClass
  flags : UInt8
  deriving DecidableEq, Repr

/-- `u8::from(query.dnssec_ok) | (u8::from(query.checking_disabled) << 1)` -/
def cacheFlags (query : ParsedQuery RecordType DNSClass) : UInt8 :=
  u8OfBool query.dnssecOk ||| (u8OfBool query.checkingDisabled <<< 1)

/-- The identity `resolve` and `spawn_refresh` compute for a parsed query. -/
def identity (query : ParsedQuery RecordType DNSClass) (nameBuf : Bytes) :
    Key RecordType DNSClass :=
  ⟨nameBuf.take query.nameLen, query.qtype, query.qclass, cacheFlags query⟩

/-! ## The same question -/

/-- Two encoded questions are the same question: the same labels up to ASCII
case, the same QTYPE and the same QCLASS. -/
def SameQuestion (a b : Bytes) : Prop :=
  ∃ p q : Question, p.Wf ∧ q.Wf ∧ a = encodeQuestion p ∧ b = encodeQuestion q ∧
    p.labels.map (List.map asciiLower) = q.labels.map (List.map asciiLower) ∧
    p.qtype = q.qtype ∧ p.qclass = q.qclass

/-- For each byte of an encoded name before the root, whether it is a `0x2e`
inside a label; `left` counts the bytes left of the current label. -/
def literalDotsFrom : Nat → Bytes → List Bool
  | _, [] => []
  | 0, b :: rest => if b = 0 then [] else false :: literalDotsFrom b.toNat rest
  | left + 1, b :: rest => (b == dot) :: literalDotsFrom left rest

/-- The places of the literal dots in the name of a request's question. -/
def literalDots (raw : Bytes) : List Bool := literalDotsFrom 0 (raw.drop headerLen)

theorem literalDotsFrom_label (label rest : Bytes) :
    literalDotsFrom label.length (label ++ rest) =
      label.map (· == dot) ++ literalDotsFrom 0 rest := by
  induction label with
  | nil => rfl
  | cons b label ih =>
    simp only [List.length_cons, List.cons_append, List.map_cons, literalDotsFrom, ih]

theorem literalDotsFrom_encodeName {labels : List Bytes} (h : ∀ l ∈ labels, LabelOk l)
    (rest : Bytes) :
    literalDotsFrom 0 (encodeName labels ++ rest) =
      labels.flatMap fun l => false :: l.map (· == dot) := by
  induction labels with
  | nil => simp [encodeName, literalDotsFrom]
  | cons l labels ih =>
    have hl := h l (List.mem_cons_self ..)
    rw [encodeName, List.cons_append, literalDotsFrom, if_neg hl.length_ne_zero, hl.toNat_length,
      List.append_assoc, literalDotsFrom_label, ih fun x hx => h x (List.mem_cons_of_mem _ hx)]
    simp

/-! ## Splitting at a separator -/

/-- Lists that avoid `sep`, each closed by one `sep`, can be told apart. -/
theorem flatMap_sep_inj {α : Type} {sep : α} {ls ms : List (List α)}
    (hl : ∀ l ∈ ls, sep ∉ l) (hm : ∀ m ∈ ms, sep ∉ m)
    (h : (ls.flatMap fun l => l ++ [sep]) = ms.flatMap fun m => m ++ [sep]) : ls = ms := by
  induction ls generalizing ms with
  | nil =>
    cases ms with
    | nil => rfl
    | cons m ms => simp at h
  | cons l ls ih =>
    cases ms with
    | nil => simp at h
    | cons m ms =>
      simp only [List.flatMap_cons, List.append_assoc, List.singleton_append] at h
      have hlm := hl l (List.mem_cons_self ..)
      have hmm := hm m (List.mem_cons_self ..)
      -- the first separator stands at the end of the first part on both sides
      have hHead : l = m := by
        rcases List.append_eq_append_iff.mp h with ⟨a, hm', hRest⟩ | ⟨a, hl', hRest⟩
        · cases a with
          | nil => simpa using hm'.symm
          | cons x a =>
            simp only [List.cons_append, List.cons.injEq] at hRest
            exact absurd (by rw [hm', ← hRest.1]; simp) hmm
        · cases a with
          | nil => simpa using hl'
          | cons x a =>
            simp only [List.cons_append, List.cons.injEq] at hRest
            exact absurd (by rw [hl', ← hRest.1]; simp) hlm
      subst hHead
      have hRest := List.append_cancel_left h
      simp only [List.cons.injEq, true_and] at hRest
      rw [ih (fun x hx => hl x (List.mem_cons_of_mem _ hx))
        (fun x hx => hm x (List.mem_cons_of_mem _ hx)) hRest]

/-! ## What flattening loses -/

/-- Lowering a byte neither makes nor destroys a dot. -/
theorem asciiLower_eq_dot_iff (b : UInt8) : asciiLower b = dot ↔ b = dot := by
  have hNat : ∀ n : Nat, n < 256 → (asciiLower (UInt8.ofNat n) = dot ↔ UInt8.ofNat n = dot) := by
    decide +kernel
  have := hNat b.toNat b.toNat_lt
  rwa [ofNat_toNat] at this

/-- A label byte together with the literal-dot mark it leaves. -/
def mark (b : UInt8) : UInt8 × Bool := (asciiLower b, b == dot)

/-- No label byte looks like the dot that ends a label. -/
theorem mark_ne_separator (b : UInt8) : mark b ≠ (dot, false) := by
  intro h
  simp only [mark, Prod.mk.injEq, beq_eq_false_iff_ne] at h
  exact h.2 ((asciiLower_eq_dot_iff b).mp h.1)

/-- Moving the mark of each length byte behind its label. -/
theorem marks_shift (labels : List Bytes) :
    (labels.flatMap fun l => false :: l.map (· == dot)) ++ [false] =
      false :: labels.flatMap fun l => l.map (· == dot) ++ [false] := by
  induction labels with
  | nil => rfl
  | cons l labels ih =>
    simp only [List.flatMap_cons, List.append_assoc, ih]
    simp

theorem zip_flatName_marks (labels : List Bytes) :
    (flatName labels).zip (labels.flatMap fun l => l.map (· == dot) ++ [false]) =
      (labels.map (List.map mark)).flatMap fun l => l ++ [(dot, false)] := by
  have hLabel : ∀ l : Bytes, (l.map asciiLower).zip (l.map (· == dot)) = l.map mark := by
    intro l
    induction l with
    | nil => rfl
    | cons b l ih => simp [mark, ih]
  induction labels with
  | nil => rfl
  | cons l labels ih =>
    rw [flatName_cons, List.flatMap_cons, List.map_cons, List.flatMap_cons, ← ih,
      List.zip_append (by simp), List.zip_append (by simp), hLabel]
    rfl

/-- Given the flattened name, the literal-dot marks determine the labels up to
case. -/
theorem lowered_labels_eq {ls ms : List Bytes} (hFlat : flatName ls = flatName ms)
    (hMarks : (ls.flatMap fun l => false :: l.map (· == dot)) =
      ms.flatMap fun l => false :: l.map (· == dot)) :
    ls.map (List.map asciiLower) = ms.map (List.map asciiLower) := by
  have hShift : (ls.flatMap fun l => l.map (· == dot) ++ [false]) =
      ms.flatMap fun l => l.map (· == dot) ++ [false] := by
    have h := congrArg (· ++ [false]) hMarks
    simp only [marks_shift, List.cons.injEq, true_and] at h
    exact h
  -- with its marks, a dot of a label is not the dot between labels
  have hZip : ((ls.map (List.map mark)).flatMap fun l => l ++ [(dot, false)]) =
      (ms.map (List.map mark)).flatMap fun l => l ++ [(dot, false)] := by
    rw [← zip_flatName_marks, ← zip_flatName_marks, hFlat, hShift]
  have hFree : ∀ ns : List Bytes, ∀ l ∈ ns.map (List.map mark), (dot, false) ∉ l := by
    intro ns l hl hmem
    obtain ⟨n, -, rfl⟩ := List.mem_map.mp hl
    obtain ⟨b, -, hb⟩ := List.mem_map.mp hmem
    exact mark_ne_separator b hb
  have hMarked := flatMap_sep_inj (hFree ls) (hFree ms) hZip
  have hFst : ∀ ns : List Bytes, (ns.map (List.map mark)).map (List.map Prod.fst) =
      ns.map (List.map asciiLower) := by
    intro ns
    simp [mark, Function.comp_def]
  rw [← hFst, ← hFst, hMarked]

/-- Labels equal up to case carry their literal dots at the same places. -/
theorem marks_eq_of_lowered {ls ms : List Bytes}
    (h : ls.map (List.map asciiLower) = ms.map (List.map asciiLower)) :
    (ls.flatMap fun l => false :: l.map (· == dot)) =
      ms.flatMap fun l => false :: l.map (· == dot) := by
  -- case does not touch dots
  have hMark : ∀ l : Bytes, l.map (· == dot) = (l.map asciiLower).map (· == dot) := by
    intro l
    rw [List.map_map]
    apply List.map_congr_left
    intro b _
    rw [Function.comp, Bool.eq_iff_iff, beq_iff_eq, beq_iff_eq]
    exact (asciiLower_eq_dot_iff b).symm
  have hFlat : ∀ ns : List Bytes, (ns.flatMap fun l => false :: l.map (· == dot)) =
      (ns.map (List.map asciiLower)).flatMap fun l => false :: l.map (· == dot) := by
    intro ns
    rw [List.flatMap_map]
    congr 1
    funext l
    rw [hMark]
  rw [hFlat ls, hFlat ms, h]

/-- A nonempty name is longer than the root's dot. -/
theorem dottedName_inj_flatName {ls ms : List Bytes} (hl : ∀ l ∈ ls, LabelOk l)
    (hm : ∀ l ∈ ms, LabelOk l) (h : dottedName ls = dottedName ms) :
    flatName ls = flatName ms := by
  have hLong : ∀ ns : List Bytes, (∀ l ∈ ns, LabelOk l) → ns ≠ [] →
      1 < (flatName ns).length := by
    intro ns hns hne
    cases ns with
    | nil => exact absurd rfl hne
    | cons n ns =>
      have := (hns n (List.mem_cons_self ..)).1
      rw [flatName_cons]
      simp only [List.length_append, List.length_map, List.length_singleton]
      omega
  unfold dottedName at h
  -- the root is written as a single dot, shorter than any other name
  by_cases hls : ls = [] <;> by_cases hms : ms = []
  · rw [hls, hms]
  · rw [if_pos hls, if_neg hms] at h
    have := hLong ms hm hms
    rw [← h] at this
    simp at this
  · rw [if_neg hls, if_pos hms] at h
    have := hLong ls hl hls
    rw [h] at this
    simp at this
  · rwa [if_neg hls, if_neg hms] at h

/-! ## Identity and question -/

/-- The question bytes of an accepted request. -/
theorem Accepted.question_bytes {rr : RrFrom RecordType DNSClass} {raw name : Bytes}
    {query : ParsedQuery RecordType DNSClass} {q : Question}
    (h : Accepted rr raw query name q) :
    readAt raw query.question.start (query.question.stop - query.question.start) =
      encodeQuestion q := by
  rw [h.span, Nat.add_sub_cancel_left, readAt, h.bytes, h.span, List.take_left]

theorem Accepted.literalDots_eq {rr : RrFrom RecordType DNSClass} {raw name : Bytes}
    {query : ParsedQuery RecordType DNSClass} {q : Question}
    (h : Accepted rr raw query name q) :
    literalDots raw = q.labels.flatMap fun l => false :: l.map (· == dot) := by
  rw [literalDots, h.bytes, encodeQuestion, List.append_assoc, List.append_assoc,
    literalDotsFrom_encodeName h.wf.labels]

/-- **Identity and question.** Two accepted requests with the same cache
identity ask the same question exactly when the `0x2e` bytes inside their
labels stand at the same places. -/
theorem same_question_iff_literalDots {rr : RrFrom RecordType DNSClass} (hrr : rr.Injective)
    {raw₁ raw₂ nameBuf₁ nameBuf₂ : Bytes} {query₁ query₂ : ParsedQuery RecordType DNSClass}
    (h₁ : parseQuery rr raw₁ emptyNameBuf = .ok (query₁, nameBuf₁))
    (h₂ : parseQuery rr raw₂ emptyNameBuf = .ok (query₂, nameBuf₂))
    (hId : identity query₁ nameBuf₁ = identity query₂ nameBuf₂) :
    SameQuestion
      (readAt raw₁ query₁.question.start (query₁.question.stop - query₁.question.start))
      (readAt raw₂ query₂.question.start (query₂.question.stop - query₂.question.start)) ↔
    literalDots raw₁ = literalDots raw₂ := by
  obtain ⟨q₁, ha₁⟩ := parseQuery_sound length_emptyNameBuf h₁
  obtain ⟨q₂, ha₂⟩ := parseQuery_sound length_emptyNameBuf h₂
  simp only [identity, Key.mk.injEq] at hId
  obtain ⟨hName, hType, hClass, -⟩ := hId
  have hQtype : q₁.qtype = q₂.qtype :=
    hrr.recordType _ _ ha₁.wf.qtype ha₂.wf.qtype (by rw [← ha₁.qtype, ← ha₂.qtype, hType])
  have hQclass : q₁.qclass = q₂.qclass :=
    hrr.dnsClass _ _ ha₁.wf.qclass ha₂.wf.qclass (by rw [← ha₁.qclass, ← ha₂.qclass, hClass])
  have hFlat : flatName q₁.labels = flatName q₂.labels :=
    dottedName_inj_flatName ha₁.wf.labels ha₂.wf.labels
      (by rw [← ha₁.name_eq, ← ha₂.name_eq, hName])
  rw [ha₁.question_bytes, ha₂.question_bytes, ha₁.literalDots_eq, ha₂.literalDots_eq]
  constructor
  · rintro ⟨p, q, hp, hq, hpEq, hqEq, hLabels, -, -⟩
    -- the encodings of a question are unique, so these are the parsed ones
    obtain rfl := encodeQuestion_inj ha₁.wf hp hpEq
    obtain rfl := encodeQuestion_inj ha₂.wf hq hqEq
    exact marks_eq_of_lowered hLabels
  · intro hMarks
    exact ⟨q₁, q₂, ha₁.wf, ha₂.wf, rfl, rfl, lowered_labels_eq hFlat hMarks, hQtype, hQclass⟩

/-! ## A collision -/

/-- Codes stand for themselves. -/
def plainRr : RrFrom Nat Nat := ⟨id, id⟩

theorem plainRr_injective : plainRr.Injective where
  recordType _ _ _ _ h := h
  dnsClass _ _ _ _ h := h

/-- A recursive query for the type A record of the single label `a\.b`. -/
def escapedDotQuery : Bytes :=
  [0x12, 0x34, 1, 0, 0, 1, 0, 0, 0, 0, 0, 0] ++ [3, 0x61, 0x2e, 0x62, 0, 0, 1, 0, 1]

/-- The same query for the two labels `a` and `B`. -/
def twoLabelQuery : Bytes :=
  [0x12, 0x34, 1, 0, 0, 1, 0, 0, 0, 0, 0, 0] ++ [1, 0x61, 1, 0x42, 0, 0, 1, 0, 1]

/-- The same query, with the upper-case spelling of the single label. -/
def escapedDotUpper : Bytes :=
  [0x56, 0x78, 1, 0, 0, 1, 0, 0, 0, 0, 0, 0] ++ [3, 0x41, 0x2e, 0x42, 0, 0, 1, 0, 1]

/-- What `parse_query` makes of a nine-byte question for `a.b.`. -/
def parsedDotQuery (id : Nat) : ParsedQuery Nat Nat :=
  ⟨id, 0, true, 4, 1, 1, ⟨12, 21⟩, false, false, false⟩

/-- The name buffer with `a.b.` written to it. -/
def dotNameBuf : Bytes := [0x61, 0x2e, 0x62, 0x2e] ++ List.replicate 251 0

theorem parseQuery_escapedDot :
    parseQuery plainRr escapedDotQuery emptyNameBuf = .ok (parsedDotQuery 0x1234, dotNameBuf) := by
  decide +kernel

theorem parseQuery_twoLabel :
    parseQuery plainRr twoLabelQuery emptyNameBuf = .ok (parsedDotQuery 0x1234, dotNameBuf) := by
  decide +kernel

theorem parseQuery_escapedDotUpper :
    parseQuery plainRr escapedDotUpper emptyNameBuf =
      .ok (parsedDotQuery 0x5678, dotNameBuf) := by
  decide +kernel

/-- One identity, two questions: the label `a\.b` against the labels `a`, `B`. -/
theorem identity_collision :
    ¬ ∀ (raw₁ raw₂ nameBuf₁ nameBuf₂ : Bytes) (query₁ query₂ : ParsedQuery Nat Nat),
      parseQuery plainRr raw₁ emptyNameBuf = .ok (query₁, nameBuf₁) →
      parseQuery plainRr raw₂ emptyNameBuf = .ok (query₂, nameBuf₂) →
      identity query₁ nameBuf₁ = identity query₂ nameBuf₂ →
      SameQuestion
        (readAt raw₁ query₁.question.start (query₁.question.stop - query₁.question.start))
        (readAt raw₂ query₂.question.start (query₂.question.stop - query₂.question.start)) := by
  intro h
  obtain ⟨p, q, hp, hq, hpEq, hqEq, hLabels, -, -⟩ :=
    h _ _ _ _ _ _ parseQuery_escapedDot parseQuery_twoLabel rfl
  have hOne : p = ⟨[[0x61, 0x2e, 0x62]], 1, 1⟩ := by
    refine (encodeQuestion_inj ?_ hp ?_).symm
    · exact ⟨by simp [LabelOk], by decide, by decide⟩
    · rw [← hpEq]
      decide
  have hTwo : q = ⟨[[0x61], [0x42]], 1, 1⟩ := by
    refine (encodeQuestion_inj ?_ hq ?_).symm
    · exact ⟨by simp [LabelOk], by decide, by decide⟩
    · rw [← hqEq]
      decide
  -- one label on the one side, two on the other
  subst hOne hTwo
  revert hLabels
  decide

/-- Two spellings of `a\.b` agree on the place of the literal dot, and ask the
same question. -/
theorem same_question_escapedDot :
    literalDots escapedDotQuery = literalDots escapedDotUpper ∧
      SameQuestion (readAt escapedDotQuery 12 9) (readAt escapedDotUpper 12 9) := by
  have hDots : literalDots escapedDotQuery = literalDots escapedDotUpper := by decide
  exact ⟨hDots, (same_question_iff_literalDots plainRr_injective parseQuery_escapedDot
    parseQuery_escapedDotUpper rfl).mpr hDots⟩

end DnsRs.Wire
