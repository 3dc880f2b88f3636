import Kafkrs.Lib.Framing
import Kafkrs.Lib.Proto
import Mathlib.Data.List.Forall2

/-! Protocol buffers, the reading half: the fields of a message come back off its bytes, so a
message whose slots have the same shape as another's is told from it by its bytes alone. -/
namespace Lib.Proto

section Varints

/-- A varint at the front of a buffer and the bytes it took, at most `fuel` of them. -/
def readVarint : Nat → Bytes → Option (Nat × Nat)
  | 0, _ => none
  | _ + 1, [] => none
  | fuel + 1, b :: rest =>
    if b.toNat < 128 then some (b.toNat, 1)
    else (readVarint fuel rest).map fun (n, taken) => (b.toNat - 128 + 128 * n, taken + 1)

theorem readVarint_progress {fuel : Nat} {buf : Bytes} {n taken : Nat}
    (read : readVarint fuel buf = some (n, taken)) : 0 < taken ∧ taken ≤ buf.length := by
  induction fuel generalizing buf n taken with
  | zero => cases read
  | succ fuel ih =>
    cases buf with
    | nil => cases read
    | cons b rest =>
      rw [readVarint] at read
      split at read
      · cases read
        simp
      · obtain ⟨⟨m, more⟩, later, same⟩ := Option.map_eq_some_iff.mp read
        cases same
        have := ih later
        rw [List.length_cons]
        omega

theorem readVarint_written {fuel n : Nat} (fits : n < 128 ^ (fuel + 1)) (rest : Bytes) :
    readVarint (fuel + 1) (varintLoop (fuel + 1) n ++ rest) =
      some (n, (varintLoop (fuel + 1) n).length) := by
  induction fuel generalizing n with
  | zero =>
    have small : n < 128 := by simpa using fits
    have byte : (UInt8.ofNat n).toNat = n := by
      rw [UInt8.toNat_ofNat']
      omega
    simp [varintLoop, readVarint, byte, small]
  | succ fuel ih =>
    rw [varintLoop]
    split
    next small =>
      have byte : (UInt8.ofNat n).toNat = n := by
        rw [UInt8.toNat_ofNat']
        omega
      simp [readVarint, byte, small]
    next large =>
      have byte : (UInt8.ofNat (n % 128 + 128)).toNat = n % 128 + 128 := by
        rw [UInt8.toNat_ofNat']
        omega
      have quotient : n / 128 < 128 ^ (fuel + 1) := by
        rw [Nat.pow_succ] at fits
        exact Nat.div_lt_of_lt_mul (by omega)
      have continued : ¬ n % 128 + 128 < 128 := by omega
      rw [List.cons_append, readVarint, byte, if_neg continued, ih quotient]
      simp only [Option.map_some, Option.some.injEq, Prod.mk.injEq, List.length_cons, and_true]
      omega

/-- A number the writer is given as a 64-bit value. -/
theorem readVarint_varint {n : Nat} (fits : n < 2 ^ 64) (rest : Bytes) :
    readVarint 10 (varint (UInt64.ofNat n) ++ rest) =
      some (n, (varint (UInt64.ofNat n)).length) := by
  have number : (UInt64.ofNat n).toNat = n := by
    rw [UInt64.toNat_ofNat', Nat.mod_eq_of_lt fits]
  have written := @readVarint_written 9 n (lt_trans fits (by decide)) rest
  rwa [varint, number]

end Varints

section Fields

inductive Content where
  | varint (n : UInt64)
  | delimited (body : Bytes)
  deriving DecidableEq, Repr

structure WireField where
  number : Nat
  content : Content
  deriving DecidableEq, Repr

def WireField.encode (f : WireField) : Bytes :=
  match f.content with
  | .varint n => key f.number 0 ++ Proto.varint n
  | .delimited body => messageField f.number body

structure WireField.Fits (f : WireField) : Prop where
  number : f.number < 2 ^ 60
  body : ∀ body, f.content = .delimited body → body.length < 2 ^ 64

/-- One field at the front of a buffer; other wire types are not written by anyone here. -/
def readField (buf : Bytes) : Option (WireField × Nat) :=
  (readVarint 10 buf).bind fun (tag, keyLen) =>
    (readVarint 10 (buf.drop keyLen)).bind fun (n, size) =>
      if tag % 8 = 0 then some (⟨tag / 8, .varint (UInt64.ofNat n)⟩, keyLen + size)
      else if tag % 8 = 2 ∧ keyLen + size + n ≤ buf.length then
        some (⟨tag / 8, .delimited ((buf.drop (keyLen + size)).take n)⟩, keyLen + size + n)
      else none

theorem readField_progress {buf : Bytes} {f : WireField} {taken : Nat}
    (read : readField buf = some (f, taken)) : 0 < taken ∧ taken ≤ buf.length := by
  obtain ⟨⟨tag, keyLen⟩, first, read⟩ := Option.bind_eq_some_iff.mp read
  obtain ⟨⟨n, size⟩, second, read⟩ := Option.bind_eq_some_iff.mp read
  have key := readVarint_progress first
  have value := readVarint_progress second
  rw [List.length_drop] at value
  dsimp only at read
  split at read
  · cases read
    omega
  · split at read
    · cases read
      omega
    · cases read

theorem readField_written {f : WireField} (fits : f.Fits) (rest : Bytes) :
    readField (f.encode ++ rest) = some (f, f.encode.length) := by
  obtain ⟨number, content⟩ := f
  have small := fits.number
  dsimp only at small
  cases content with
  | varint n =>
    have tag : (8 * number + 0) / 8 = number ∧ (8 * number + 0) % 8 = 0 := by omega
    have first := readVarint_varint (show 8 * number + 0 < 2 ^ 64 by omega) (Proto.varint n ++ rest)
    have second := readVarint_varint n.toNat_lt rest
    rw [UInt64.ofNat_toNat] at second
    simp only [readField, WireField.encode, key, List.append_assoc, first, Option.bind_some,
      List.drop_left, second, tag, if_true, UInt64.ofNat_toNat, List.length_append]
  | delimited body =>
    have length := fits.body body rfl
    have tag : (8 * number + 2) / 8 = number ∧ (8 * number + 2) % 8 = 2 := by omega
    have first := readVarint_varint (show 8 * number + 2 < 2 ^ 64 by omega)
      (Proto.varint (UInt64.ofNat body.length) ++ (body ++ rest))
    have second := readVarint_varint length (body ++ rest)
    have behind : (Proto.varint (UInt64.ofNat (8 * number + 2)) ++
        (Proto.varint (UInt64.ofNat body.length) ++ (body ++ rest))).drop
        ((Proto.varint (UInt64.ofNat (8 * number + 2))).length +
          (Proto.varint (UInt64.ofNat body.length)).length) = body ++ rest := by
      rw [← List.drop_drop, List.drop_left, List.drop_left]
    have enough : (Proto.varint (UInt64.ofNat (8 * number + 2))).length +
        (Proto.varint (UInt64.ofNat body.length)).length + body.length ≤
        (Proto.varint (UInt64.ofNat (8 * number + 2)) ++
          (Proto.varint (UInt64.ofNat body.length) ++ (body ++ rest))).length := by
      simp only [List.length_append]
      omega
    have delimited : ¬ 2 = 0 := by decide
    simp only [readField, WireField.encode, messageField, key, List.append_assoc, first,
      Option.bind_some, List.drop_left, second, tag, if_neg delimited]
    rw [if_pos ⟨trivial, enough⟩, behind, List.take_left]
    simp only [List.length_append, Nat.add_assoc]

theorem fieldReading : Reading WireField.encode readField WireField.Fits where
  complete _ rest fits := readField_written fits rest
  progress _ _ _ read := readField_progress read

end Fields

section Slots

/-- What a message declares of one of its fields, and the value there. -/
inductive Slot where
  | scalar (n : UInt64)
  | optional (n : Option UInt64)
  | bytes (body : Bytes)
  | message (body : Option Bytes)
  | repeated (bodies : List Bytes)

def Slot.fields (number : Nat) : Slot → List WireField
  | .scalar n => if n = 0 then [] else [⟨number, .varint n⟩]
  | .optional n => n.toList.map fun n => ⟨number, .varint n⟩
  | .bytes body => if body = [] then [] else [⟨number, .delimited body⟩]
  | .message body => body.toList.map fun body => ⟨number, .delimited body⟩
  | .repeated bodies => bodies.map fun body => ⟨number, .delimited body⟩

def Slot.encode (number : Nat) : Slot → Bytes
  | .scalar n => scalarField number n
  | .optional n => optionalField number n
  | .bytes body => bytesField number body
  | .message body => body.elim [] (messageField number)
  | .repeated bodies => repeatedField number bodies

def Slot.bodies : Slot → List Bytes
  | .message body => body.toList
  | .repeated bodies => bodies
  | _ => []

/-- Two slots that a schema declares the same way. -/
inductive Slot.Alike : Slot → Slot → Prop where
  | scalar (n m : UInt64) : Alike (.scalar n) (.scalar m)
  | optional (n m : Option UInt64) : Alike (.optional n) (.optional m)
  | bytes (a b : Bytes) : Alike (.bytes a) (.bytes b)
  | message (a b : Option Bytes) : Alike (.message a) (.message b)
  | repeated (as bs : List Bytes) : Alike (.repeated as) (.repeated bs)

def slotFields : Nat → List Slot → List WireField
  | _, [] => []
  | first, slot :: rest => slot.fields first ++ slotFields (first + 1) rest

def encodeSlots (first : Nat) (slots : List Slot) : Bytes := (slotFields first slots).flatMap WireField.encode

theorem Slot.fields_encode (number : Nat) (slot : Slot) :
    (slot.fields number).flatMap WireField.encode = slot.encode number := by
  cases slot with
  | scalar n =>
    rw [Slot.fields, Slot.encode, scalarField]
    split <;> simp [WireField.encode]
  | bytes body =>
    rw [Slot.fields, Slot.encode, bytesField]
    split <;> simp [WireField.encode]
  | optional n => cases n <;> simp [Slot.fields, Slot.encode, optionalField, WireField.encode]
  | message body => cases body <;> simp [Slot.fields, Slot.encode, WireField.encode]
  | repeated bodies =>
    rw [Slot.fields, Slot.encode, repeatedField, List.flatMap_map]
    rfl

@[simp] theorem encodeSlots_nil (first : Nat) : encodeSlots first [] = [] := rfl

@[simp] theorem encodeSlots_cons (first : Nat) (slot : Slot) (slots : List Slot) :
    encodeSlots first (slot :: slots) = slot.encode first ++ encodeSlots (first + 1) slots := by
  rw [encodeSlots, slotFields, List.flatMap_append, Slot.fields_encode]
  rfl

theorem Slot.fields_number {number : Nat} {slot : Slot} {f : WireField}
    (member : f ∈ slot.fields number) : f.number = number := by
  cases slot with
  | scalar n | bytes n =>
    simp only [Slot.fields] at member
    split at member
    · cases member
    · rw [List.mem_singleton.mp member]
  | optional n | message n | repeated n =>
    obtain ⟨_, _, rfl⟩ := List.mem_map.mp member
    rfl

theorem slotFields_number {first : Nat} {slots : List Slot} {f : WireField}
    (member : f ∈ slotFields first slots) : first ≤ f.number ∧ f.number < first + slots.length := by
  induction slots generalizing first with
  | nil => cases member
  | cons slot slots ih =>
    rw [List.length_cons]
    rcases List.mem_append.mp member with here | later
    · have := Slot.fields_number here
      omega
    · have := ih later
      omega

/-- Slots declared alike are equal when they are written as the same fields. -/
theorem Slot.Alike.eq {number : Nat} {slot other : Slot} (alike : Slot.Alike slot other)
    (same : slot.fields number = other.fields number) : slot = other := by
  have delimited : Function.Injective fun body => WireField.mk number (.delimited body) :=
    fun _ _ same => by simpa using same
  cases alike with
  | scalar n m =>
    simp only [Slot.fields] at same
    split at same <;> split at same <;> simp_all
  | bytes a b =>
    simp only [Slot.fields] at same
    split at same <;> split at same <;> simp_all
  | optional n m =>
    cases n <;> cases m <;> simp_all [Slot.fields]
  | message a b =>
    cases a <;> cases b <;> simp_all [Slot.fields]
  | repeated as bs => rw [delimited.list_map same]

theorem slotFields_inj {first : Nat} {slots others : List Slot}
    (alike : List.Forall₂ Slot.Alike slots others)
    (same : slotFields first slots = slotFields first others) : slots = others := by
  induction alike generalizing first with
  | nil => rfl
  | @cons slot other slots others here _ ih =>
    have split (slot : Slot) (slots : List Slot) :
        (slotFields first (slot :: slots)).filter (fun f => decide (f.number = first)) =
            slot.fields first ∧
          (slotFields first (slot :: slots)).filter (fun f => !decide (f.number = first)) =
            slotFields (first + 1) slots := by
      have inside : ∀ f ∈ slot.fields first, f.number = first := fun f => Slot.fields_number
      have outside : ∀ f ∈ slotFields (first + 1) slots, f.number ≠ first := fun f member => by
        have := slotFields_number member
        omega
      simp only [slotFields, List.filter_append]
      constructor
      · rw [List.filter_eq_self.mpr (by simpa using inside),
          List.filter_eq_nil_iff.mpr (by simpa using outside), List.append_nil]
      · rw [List.filter_eq_nil_iff.mpr (by simpa using inside),
          List.filter_eq_self.mpr (by simpa using outside), List.nil_append]
    have head := (split slot slots).1.symm.trans ((congrArg _ same).trans (split other others).1)
    have tail := (split slot slots).2.symm.trans ((congrArg _ same).trans (split other others).2)
    rw [here.eq head, ih tail]

end Slots

section Distinct

/-- Bodies of one kind of message, below the length a field can carry, have their own bytes. -/
def Distinct {α : Type} (encode : α → Bytes) : Prop :=
  ∀ a b, (encode a).length < 2 ^ 64 → encode a = encode b → a = b

theorem fields_fit {fields : List WireField} (numbers : ∀ f ∈ fields, f.number < 2 ^ 60)
    (short : (fields.flatMap WireField.encode).length < 2 ^ 64) : ∀ f ∈ fields, f.Fits := by
  refine fun f member => ⟨numbers f member, fun body delimited => ?_⟩
  obtain ⟨before, after, rfl⟩ := List.append_of_mem member
  rw [List.flatMap_append, List.flatMap_cons, List.length_append, List.length_append] at short
  have whole : body.length ≤ f.encode.length := by
    rw [WireField.encode, delimited, messageField_length]
    omega
  omega

theorem encodeFields_inj {fields others : List WireField}
    (numbers : ∀ f ∈ fields, f.number < 2 ^ 60) (numbers' : ∀ f ∈ others, f.number < 2 ^ 60)
    (short : (fields.flatMap WireField.encode).length < 2 ^ 64)
    (same : fields.flatMap WireField.encode = others.flatMap WireField.encode) : fields = others := by
  have first := fieldReading.scan_encoded (fields_fit numbers short)
  have second := fieldReading.scan_encoded (fields_fit numbers' (same ▸ short))
  rw [same, second] at first
  exact (congrArg Prod.fst first).symm

/-- Every body in a message is shorter than the message. -/
theorem slot_bodies_short {first : Nat} {slots : List Slot}
    (short : (encodeSlots first slots).length < 2 ^ 64) :
    ∀ slot ∈ slots, ∀ body ∈ slot.bodies, body.length < 2 ^ 64 := by
  induction slots generalizing first with
  | nil => simp
  | cons slot slots ih =>
    rw [encodeSlots_cons, List.length_append] at short
    refine List.forall_mem_cons.mpr ⟨fun body member => ?_, @ih (first + 1) (by omega)⟩
    cases slot with
    | scalar n | optional n | bytes n => cases member
    | message content =>
      obtain rfl := Option.mem_toList.mp member
      simp only [Slot.encode, Option.elim_some, messageField_length] at short
      omega
    | repeated bodies =>
      obtain ⟨before, after, rfl⟩ := List.append_of_mem member
      simp only [Slot.encode, repeatedField, List.flatMap_append, List.flatMap_cons,
        List.length_append, messageField_length] at short
      omega

theorem encodeSlots_inj {first : Nat} {slots others : List Slot} (low : first + slots.length < 2 ^ 60)
    (alike : List.Forall₂ Slot.Alike slots others)
    (short : (encodeSlots first slots).length < 2 ^ 64)
    (same : encodeSlots first slots = encodeSlots first others) : slots = others := by
  refine slotFields_inj alike (encodeFields_inj (fun f member => ?_) (fun f member => ?_) short same)
  · have := slotFields_number member
    omega
  · have := slotFields_number member
    have := alike.length_eq
    omega

/-- A kind of message is distinct when its slots, declared alike, tell its values apart. -/
theorem Distinct.of_slots {α : Type} {encode : α → Bytes} (slots : α → List Slot)
    (written : ∀ a, encode a = encodeSlots 1 (slots a)) (few : ∀ a, (slots a).length ≤ 16)
    (alike : ∀ a b, List.Forall₂ Slot.Alike (slots a) (slots b))
    (determined : ∀ a b, (∀ slot ∈ slots a, ∀ body ∈ slot.bodies, body.length < 2 ^ 64) →
      slots a = slots b → a = b) : Distinct encode := by
  intro a b short same
  rw [written] at short
  rw [written, written] at same
  have count := few a
  exact determined a b (slot_bodies_short short)
    (encodeSlots_inj (by omega) (alike a b) short same)

theorem Distinct.map {α : Type} {encode : α → Bytes} (distinct : Distinct encode) {as bs : List α}
    (short : ∀ a ∈ as, (encode a).length < 2 ^ 64) (same : as.map encode = bs.map encode) :
    as = bs := by
  induction as generalizing bs with
  | nil => exact (List.map_eq_nil_iff.mp same.symm).symm
  | cons a as ih =>
    cases bs with
    | nil => cases same
    | cons b bs =>
      simp only [List.map_cons, List.cons.injEq] at same
      rw [distinct a b (short a (by simp)) same.1,
        ih (fun other member => short other (List.mem_cons_of_mem _ member)) same.2]

theorem Distinct.option {α : Type} {encode : α → Bytes} (distinct : Distinct encode)
    {a b : Option α} (short : ∀ x ∈ a, (encode x).length < 2 ^ 64)
    (same : a.map encode = b.map encode) : a = b := by
  cases a with
  | none => exact (Option.map_eq_none_iff.mp same.symm).symm
  | some x =>
    obtain ⟨y, rfl, equal⟩ := Option.map_eq_some_iff.mp same.symm
    rw [distinct x y (short x rfl) equal.symm]

end Distinct

end Lib.Proto
