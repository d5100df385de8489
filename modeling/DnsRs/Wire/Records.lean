import DnsRs.Wire.Aging

/-!
# Messages as structures

A message with any number of questions and records, and its encoding. A name is a
sequence of labels that ends with the root label or with a compression pointer;
where the pointer leads is of no interest here, since no walk of `dns/wire.rs`
follows one.

The reads of the walks are stated for a message in which such a piece *stands* at
an offset: `skip_name` ends behind an encoded name (`skipName_of_stands`), and the
fields of an encoded record are read back where they are (`WireRecord.Reads`).
-/

namespace DnsRs.Wire

open Lib

/-! ## Names -/

inductive NameEnd where
  | root
  | pointer (target : Fin (2 ^ 14))
  deriving DecidableEq, Repr

/-- A pointer to the name of the first question. -/
def NameEnd.question : NameEnd := .pointer 12

structure WireName where
  labels : List Bytes
  ending : NameEnd
  labels_ok : ∀ l ∈ labels, LabelOk l
  deriving DecidableEq

theorem labelOk_nil : ∀ l ∈ ([] : List Bytes), LabelOk l := fun _ hl => absurd hl List.not_mem_nil

/-- Length-prefixed labels. -/
def encodeLabels : List Bytes → Bytes
  | [] => []
  | label :: labels => UInt8.ofNat label.length :: (label ++ encodeLabels labels)

def NameEnd.encode : NameEnd → Bytes
  | .root => [0]
  | .pointer target => be16 (0xc000 + target)

def WireName.encode (n : WireName) : Bytes := encodeLabels n.labels ++ n.ending.encode

theorem encodeName_eq (labels : List Bytes) : encodeName labels = encodeLabels labels ++ [0] := by
  induction labels with
  | nil => rfl
  | cons label labels ih =>
    rw [encodeName, ih, encodeLabels, List.cons_append, List.append_assoc]

theorem NameEnd.length_pos (e : NameEnd) : 0 < e.encode.length := by
  cases e with
  | root => exact Nat.one_pos
  | pointer target => exact Nat.two_pos

/-- The first byte of a pointer has both top bits set. -/
theorem pointer_byte (target : Fin (2 ^ 14)) :
    192 ≤ (UInt8.ofNat ((0xc000 + target.val) / 256)).toNat := by
  have hLt := target.isLt
  rw [toNat_ofNat_of_lt (by omega)]
  omega

/-- The end of a name. -/
theorem skipNameFrom_ending {raw : Bytes} {e : NameEnd} {pos fuel : Nat}
    (h : Stands raw pos e.encode) (hFuel : raw.length < fuel + pos) :
    skipNameFrom raw fuel pos = .ok (pos + e.encode.length) := by
  have hLe := h.le e.length_pos
  obtain ⟨fuel, rfl⟩ : ∃ n, fuel = n + 1 := ⟨fuel - 1, by have := e.length_pos; omega⟩
  rw [skipNameFrom]
  cases e with
  | root =>
    rw [get?_eq_ok.mpr h.head, ok_bind, if_neg (by decide), if_neg (by decide), if_pos rfl]
    exact if_pos hLe
  | pointer target =>
    rw [get?_eq_ok.mpr h.head, ok_bind, if_pos ((and_c0_eq_c0_iff _).mpr (pointer_byte target))]
    exact if_pos hLe

theorem skipNameFrom_of_stands {raw : Bytes} {e : NameEnd} :
    ∀ {labels : List Bytes} {pos fuel : Nat}, (∀ l ∈ labels, LabelOk l) →
      Stands raw pos (encodeLabels labels ++ e.encode) → raw.length < fuel + pos →
      skipNameFrom raw fuel pos = .ok (pos + (encodeLabels labels ++ e.encode).length) := by
  intro labels
  induction labels with
  | nil => exact fun _ h hFuel => skipNameFrom_ending h hFuel
  | cons label labels ih =>
    intro pos fuel hOk h hFuel
    have hLabel := hOk label List.mem_cons_self
    have hLe := h.le (Nat.succ_pos _)
    rw [encodeLabels, List.cons_append, List.length_cons] at hLe
    obtain ⟨fuel, rfl⟩ : ∃ n, fuel = n + 1 := ⟨fuel - 1, by omega⟩
    -- the rest of the name stands behind the label
    have hRest : Stands raw (pos + 1 + label.length) (encodeLabels labels ++ e.encode) := by
      have hSplit : encodeLabels (label :: labels) ++ e.encode =
          (UInt8.ofNat label.length :: label) ++ (encodeLabels labels ++ e.encode) := by
        simp [encodeLabels]
      rw [hSplit] at h
      have hRight := h.right
      rw [List.length_cons] at hRight
      rwa [show pos + 1 + label.length = pos + (label.length + 1) by omega]
    have hSmall : UInt8.ofNat label.length &&& 0xc0 = 0 := by
      rw [and_c0_eq_zero_iff, hLabel.toNat_length]
      have := hLabel.2
      omega
    rw [skipNameFrom, get?_eq_ok.mpr h.head, ok_bind, if_neg (by rw [hSmall]; decide),
      if_neg (not_not.mpr hSmall), if_neg hLabel.length_ne_zero, hLabel.toNat_length,
      ih (fun l hl => hOk l (List.mem_cons_of_mem _ hl)) hRest (by omega)]
    simp only [encodeLabels, List.cons_append, List.append_assoc, List.length_cons,
      List.length_append]
    congr 1
    omega

/-- **`skip_name` ends behind the name.** -/
theorem skipName_of_stands {raw : Bytes} {n : WireName} {pos : Nat}
    (h : Stands raw pos n.encode) : skipName raw pos = .ok (pos + n.encode.length) :=
  skipNameFrom_of_stands n.labels_ok h (by omega)

/-! ## Fields -/

theorem u16At_of_stands {raw : Bytes} {pos n : Nat} (h : Stands raw pos (be16 n))
    (hn : n < 2 ^ 16) : u16At raw pos = .ok n := by
  refine u16At_eq_ok.mpr ⟨_, _, h.getElem? (i := 0) Nat.two_pos, h.getElem? (i := 1) Nat.one_lt_two, ?_⟩
  exact (ofBe_be16 hn).symm

theorem getRange?_of_stands {raw data : Bytes} {pos : Nat} (h : Stands raw pos data)
    (hData : 0 < data.length) : getRange? raw pos (pos + data.length) = .ok data := by
  refine getRange?_eq_ok.mpr ⟨⟨by omega, h.le hData⟩, ?_⟩
  rw [Nat.add_sub_cancel_left, h.readAt]

theorem ofBe_be32 {n : Nat} (h : n < 2 ^ 32) : ofBe (be32 n) = n := by
  simp only [ofBe, be32, List.foldl_cons, List.foldl_nil, UInt8.toNat_ofNat']
  omega

theorem be32_ofBe {bytes : Bytes} (h : bytes.length = 4) : be32 (ofBe bytes) = bytes := by
  obtain ⟨b0, b1, b2, b3, rfl⟩ : ∃ b0 b1 b2 b3, bytes = [b0, b1, b2, b3] := by
    match bytes, h with
    | [b0, b1, b2, b3], _ => exact ⟨b0, b1, b2, b3, rfl⟩
  have h0 := b0.toNat_lt
  have h1 := b1.toNat_lt
  have h2 := b2.toNat_lt
  have h3 := b3.toNat_lt
  simp only [be32, ofBe, List.foldl_cons, List.foldl_nil, List.cons.injEq, ← UInt8.toNat_inj,
    UInt8.toNat_ofNat', and_true]
  omega

/-! ## Questions and records -/

structure WireQuestion where
  name : WireName
  qtype : UInt16
  qclass : UInt16
  deriving DecidableEq

def WireQuestion.encode (q : WireQuestion) : Bytes :=
  q.name.encode ++ (be16 q.qtype.toNat ++ be16 q.qclass.toNat)

structure WireRecord where
  name : WireName
  recordType : UInt16
  dnsClass : UInt16
  ttl : UInt32
  rdata : Bytes
  rdata_le : rdata.length ≤ 65535
  deriving DecidableEq

theorem length_nil_rdata : ([] : Bytes).length ≤ 65535 := Nat.zero_le 65535

/-- What stands behind the TTL. -/
def WireRecord.body (r : WireRecord) : Bytes := be16 r.rdata.length ++ r.rdata

def WireRecord.encode (r : WireRecord) : Bytes :=
  r.name.encode ++
    (be16 r.recordType.toNat ++ (be16 r.dnsClass.toNat ++ (be32 r.ttl.toNat ++ r.body)))

theorem WireRecord.length_body (r : WireRecord) : r.body.length = 2 + r.rdata.length := by
  rw [WireRecord.body, List.length_append, length_be16]

theorem WireRecord.length_encode (r : WireRecord) :
    r.encode.length = r.name.encode.length + 10 + r.rdata.length := by
  simp only [WireRecord.encode, List.length_append, length_be16, length_be32, r.length_body]
  omega

/-- What a walk reads of a record whose name starts at `pos`. -/
structure WireRecord.Reads (r : WireRecord) (raw : Bytes) (pos stop : Nat) : Prop where
  name : skipName raw pos = .ok stop
  recordType : u16At raw stop = .ok r.recordType.toNat
  dnsClass : u16At raw (stop + 2) = .ok r.dnsClass.toNat
  ttl : getRange? raw (stop + 4) (stop + 4 + 4) = .ok (be32 r.ttl.toNat)
  rdlen : u16At raw (stop + 8) = .ok r.rdata.length
  inside : stop + 10 + r.rdata.length ≤ raw.length

/-- **The fields of a record are read back.** -/
theorem WireRecord.reads {r : WireRecord} {raw : Bytes} {pos : Nat}
    (h : Stands raw pos r.encode) : r.Reads raw pos (pos + r.name.encode.length) := by
  have hLe := h.le (by rw [r.length_encode]; omega)
  rw [r.length_encode] at hLe
  have hFixed := h.right
  have hRdlen := hFixed.right.right.right.left
  constructor
  case name => exact skipName_of_stands h.left
  case recordType => exact u16At_of_stands hFixed.left r.recordType.toNat_lt
  case dnsClass => exact u16At_of_stands hFixed.right.left r.dnsClass.toNat_lt
  case ttl => exact getRange?_of_stands hFixed.right.right.left (by rw [length_be32]; omega)
  case rdlen => exact u16At_of_stands hRdlen (Nat.lt_succ_of_le r.rdata_le)
  case inside => omega

end DnsRs.Wire
