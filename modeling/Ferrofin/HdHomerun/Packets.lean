import Ferrofin.Lib.Filling
import Ferrofin.Lib.Reading
import Ferrofin.Util.Decimal

/-!
# Packets of the HDHomeRun control protocol

A packet is a two-byte type, the two-byte length of its payload, the payload and the CRC of all of
that (`packet`).  The payload of a get or set request names a setting, as a tag and a string that
one byte gives the length of, and may set it, under a lock key.

The CRC is a parameter.
-/

namespace Ferrofin.HdHomerun

open Lib Lib.Filling Lib.Reading Util
open List (append_assoc length_append length_drop length_take take_take)

/-- `HdHomerunManager.GetSetName`. -/
def getSetName : UInt8 := 3

/-- `HdHomerunManager.GetSetValue`. -/
def getSetValue : UInt8 := 4

/-- `HdHomerunManager.GetSetLockkey`. -/
def getSetLockkey : UInt8 := 21

/-- `HdHomerunManager.GetSetRequest`. -/
def getSetRequest : Nat := 4

/-- `HdHomerunManager.GetSetReply`. -/
def getSetReply : Nat := 5

def utf8 (s : List Char) : List UInt8 := s.flatMap String.utf8EncodeChar

def tunerSetting (tuner : Int32) (name : List Char) : List Char :=
  "/tuner".toList ++ decimal tuner.toInt ++ '/' :: name

def writeNullTerminatedString (payload : List Char) : Filling UInt8 String Nat := do
  let bytes := utf8 payload
  let len := bytes.length + 1
  refuseIf (256 ≤ len) s!"hdhomerun payload of {len} bytes exceeds one length byte"
  let size ← size
  refuseIf (size < len + 1) "hdhomerun packet buffer too small"
  put 0 [UInt8.ofNat len]
  put 1 bytes
  put len [0]
  return len + 1

def writeHeaderAndPayload (payload : List Char) : Filling UInt8 String Nat := do
  let size ← size
  refuseIf (size < 6) "hdhomerun packet buffer too small"
  put 0 (beBytes 2 getSetRequest)
  put 4 [getSetName]
  let written ← tail 5 (writeNullTerminatedString payload)
  return 5 + written

variable (crc32 : List UInt8 → UInt32)

def finishPacket (offset : Nat) : Filling UInt8 String Nat := do
  let size ← size
  refuseIf (size < offset + 4) "hdhomerun packet buffer too small"
  refuseIf (65536 ≤ offset - 4) "hdhomerun payload exceeds a two-byte length"
  put 2 (beBytes 2 (offset - 4))
  let written ← front offset
  put offset (leBytes 4 (crc32 written).toNat)
  return offset + 4

def writeGetMessage (tuner : Int32) (name : List Char) : Filling UInt8 String Nat := do
  let offset ← writeHeaderAndPayload (tunerSetting tuner name)
  finishPacket crc32 offset

/-- The part of `write_set_message` that writes the lock key. -/
def writeLockkey (offset : Nat) : Option UInt32 → Filling UInt8 String Nat
  | none => return offset
  | some lockkey => do
    let size ← size
    refuseIf (size < offset + 6) "hdhomerun packet buffer too small"
    put offset [getSetLockkey]
    put (offset + 1) [4]
    put (offset + 2) (beBytes 4 lockkey.toNat)
    return offset + 6

def writeSetMessage (tuner : Int32) (name value : List Char) (lockkey : Option UInt32) :
    Filling UInt8 String Nat := do
  let offset ← writeHeaderAndPayload (tunerSetting tuner name)
  let size ← size
  refuseIf (size ≤ offset) "hdhomerun packet buffer too small"
  put offset [getSetValue]
  let written ← tail (offset + 1) (writeNullTerminatedString value)
  let offset ← writeLockkey (offset + 1 + written) lockkey
  finishPacket crc32 offset

/-! ### What a request is -/

def framed (bytes : List UInt8) : List UInt8 := UInt8.ofNat (bytes.length + 1) :: bytes ++ [0]

def getPayload (name : List UInt8) : List UInt8 := getSetName :: framed name

def lockkeyPayload : Option UInt32 → List UInt8
  | none => []
  | some lockkey => getSetLockkey :: 4 :: beBytes 4 lockkey.toNat

def setPayload (name value : List UInt8) (lockkey : Option UInt32) : List UInt8 :=
  getPayload name ++ getSetValue :: framed value ++ lockkeyPayload lockkey

def packetFront (kind : Nat) (payload : List UInt8) : List UInt8 :=
  beBytes 2 kind ++ beBytes 2 payload.length ++ payload

def packet (kind : Nat) (payload : List UInt8) : List UInt8 :=
  packetFront kind payload ++ leBytes 4 (crc32 (packetFront kind payload)).toNat

def FitsByte (bytes : List UInt8) : Prop := bytes.length + 1 < 256

instance : DecidablePred FitsByte := fun bytes =>
  inferInstanceAs (Decidable (bytes.length + 1 < 256))

@[simp] theorem length_framed (bytes : List UInt8) : (framed bytes).length = bytes.length + 2 := by
  simp [framed]

@[simp] theorem length_getPayload (name : List UInt8) :
    (getPayload name).length = name.length + 3 := by
  simp [getPayload]

@[simp] theorem length_packetFront (kind : Nat) (payload : List UInt8) :
    (packetFront kind payload).length = payload.length + 4 := by
  simp only [packetFront, length_append, length_beBytes]
  omega

@[simp] theorem length_packet (kind : Nat) (payload : List UInt8) :
    (packet crc32 kind payload).length = payload.length + 8 := by
  simp [packet]

/-! ### The writers -/

variable {b : List UInt8} {s : List Char}

theorem writeNullTerminatedString_ok (hs : FitsByte (utf8 s))
    (hb : (utf8 s).length + 2 ≤ b.length) :
    writeNullTerminatedString s b =
      some (.ok ((utf8 s).length + 2), filled (framed (utf8 s)) b) := by
  unfold FitsByte at hs
  simp only [writeNullTerminatedString]
  rw [refuseIf_neg (by omega), size_bind, refuseIf_neg (by omega), put_zero_bind, put_bind,
    put_bind]
  · rfl
  all_goals grind

theorem writeNullTerminatedString_error
    (h : ¬ (FitsByte (utf8 s) ∧ (utf8 s).length + 2 ≤ b.length)) :
    Refused (writeNullTerminatedString s b) := by
  unfold FitsByte at h
  simp only [writeNullTerminatedString]
  by_cases hlen : 256 ≤ (utf8 s).length + 1
  · exact refuseIf_pos hlen _
  · rw [refuseIf_neg hlen, size_bind]
    exact refuseIf_pos (by omega) _

/-- What the header leaves: the length of the payload is still what was in the buffer. -/
def header (b name : List UInt8) : List UInt8 :=
  beBytes 2 getSetRequest ++ (b.drop 2).take 2 ++ getPayload name

theorem length_header {name : List UInt8} (hb : name.length + 7 ≤ b.length) :
    (header b name).length = name.length + 7 := by
  simp only [header, length_append, length_beBytes, length_take, length_drop,
    length_getPayload]
  omega

theorem writeHeaderAndPayload_ok (hs : FitsByte (utf8 s))
    (hb : (utf8 s).length + 7 ≤ b.length) :
    writeHeaderAndPayload s b =
      some (.ok ((utf8 s).length + 7), filled (header b (utf8 s)) b) := by
  have hdrop : (b.drop 5).length = b.length - 5 := length_drop
  simp only [writeHeaderAndPayload]
  rw [size_bind, refuseIf_neg (by omega), put_zero_bind, filled_hole 2, put_bind,
    bind_ok (tail_filled ?_ ?_ (writeNullTerminatedString_ok hs ?_))]
  · rw [header, getPayload, Nat.add_comm, length_beBytes, append_assoc _ [getSetName]]
    rfl
  all_goals grind [length_beBytes]

theorem writeHeaderAndPayload_error
    (h : ¬ (FitsByte (utf8 s) ∧ (utf8 s).length + 7 ≤ b.length)) :
    Refused (writeHeaderAndPayload s b) := by
  simp only [writeHeaderAndPayload]
  rw [size_bind]
  by_cases hsize : b.length < 6
  · exact refuseIf_pos hsize _
  · rw [refuseIf_neg hsize, put_zero_bind, filled_hole 2, put_bind]
    · refine (tail_refuses ?_ ?_ (writeNullTerminatedString_error fun hfit => ?_)).bind _
      on_goal 3 => exact h ⟨hfit.1, by grind⟩
      all_goals grind [length_beBytes]
    all_goals grind [length_beBytes]

theorem length_hole (hb : 4 ≤ b.length) : ((b.drop 2).take 2).length = 2 := by
  simp only [length_take, length_drop]
  omega

theorem finishPacket_ok {pre hole payload : List UInt8} {n : Nat}
    (hpre : pre = beBytes 2 getSetRequest ++ hole ++ payload) (hhole : hole.length = 2)
    (hn : n = pre.length) (hpayload : payload.length < 65536) (hb : payload.length + 8 ≤ b.length) :
    finishPacket crc32 n (filled pre b) =
      some (.ok (packet crc32 getSetRequest payload).length,
        filled (packet crc32 getSetRequest payload) b) := by
  have hlength : pre.length = payload.length + 4 := by
    simp only [hpre, length_append, length_beBytes, hhole]
    omega
  subst hn hpre
  simp only [finishPacket]
  rw [size_bind, length_filled (by omega), refuseIf_neg (by omega), refuseIf_neg (by omega),
    bind_ok (put_filled_within ?_ ?_ ?_), bind_ok (front_filled ?_ ?_), put_bind, length_packet,
    hlength, Nat.add_sub_cancel]
  · rfl
  all_goals grind [length_beBytes, length_leBytes]

theorem finishPacket_error {pre : List UInt8} {n : Nat} (hn : n = pre.length)
    (hpre : pre.length ≤ b.length) (hb : b.length < pre.length + 4) :
    Refused (finishPacket crc32 n (filled pre b)) := by
  subst hn
  simp only [finishPacket]
  rw [size_bind, length_filled hpre]
  exact refuseIf_pos hb _

theorem writeLockkey_ok {pre : List UInt8} {n : Nat} {lockkey : Option UInt32}
    (hn : n = pre.length) (hb : (pre ++ lockkeyPayload lockkey).length ≤ b.length) :
    writeLockkey n lockkey (filled pre b) =
      some (.ok (pre ++ lockkeyPayload lockkey).length,
        filled (pre ++ lockkeyPayload lockkey) b) := by
  subst hn
  cases lockkey with
  | none =>
    rw [lockkeyPayload, List.append_nil]
    rfl
  | some lockkey =>
    have hlength : (pre ++ lockkeyPayload (some lockkey)).length = pre.length + 6 := by
      simp [lockkeyPayload]
    simp only [writeLockkey]
    rw [size_bind, length_filled (by omega), refuseIf_neg (by omega), put_bind, put_bind, put_bind,
      hlength]
    · rw [append_assoc, append_assoc]
      rfl
    all_goals grind [length_beBytes]

theorem writeLockkey_error {pre : List UInt8} {n : Nat} {lockkey : Option UInt32}
    (hn : n = pre.length) (hpre : pre.length ≤ b.length)
    (hb : b.length < (pre ++ lockkeyPayload lockkey).length) :
    Refused (writeLockkey n lockkey (filled pre b)) := by
  subst hn
  cases lockkey with
  | none =>
    rw [lockkeyPayload, List.append_nil] at hb
    omega
  | some lockkey =>
    have hlength : (pre ++ lockkeyPayload (some lockkey)).length = pre.length + 6 := by
      simp [lockkeyPayload]
    simp only [writeLockkey]
    rw [size_bind, length_filled hpre]
    exact refuseIf_pos (by omega) _

structure Writes (write : Filling UInt8 String Nat) (strings : List (List UInt8))
    (payload : List UInt8) : Prop where
  fits : ∀ b : List UInt8, (∀ s ∈ strings, FitsByte s) → payload.length + 8 ≤ b.length →
    write b = some (.ok (packet crc32 getSetRequest payload).length,
      filled (packet crc32 getSetRequest payload) b)
  refuses : ∀ b : List UInt8, ¬ ((∀ s ∈ strings, FitsByte s) ∧ payload.length + 8 ≤ b.length) →
    Refused (write b)

theorem writes_getMessage (tuner : Int32) (name : List Char) :
    Writes crc32 (writeGetMessage crc32 tuner name) [utf8 (tunerSetting tuner name)]
      (getPayload (utf8 (tunerSetting tuner name))) := by
  generalize hs : tunerSetting tuner name = s
  have hpayload := length_getPayload (utf8 s)
  constructor
  · intro b hstrings hb
    have hname : FitsByte (utf8 s) := hstrings _ (List.mem_singleton_self _)
    have hbyte : (utf8 s).length + 1 < 256 := hname
    have hheader : (header b (utf8 s)).length = (utf8 s).length + 7 := length_header (by omega)
    simp only [writeGetMessage, hs]
    rw [bind_ok (writeHeaderAndPayload_ok hname (by omega))]
    exact finishPacket_ok crc32 rfl (length_hole (by omega)) hheader.symm (by omega) hb
  · intro b hnot
    simp only [writeGetMessage, hs]
    by_cases hheader : FitsByte (utf8 s) ∧ (utf8 s).length + 7 ≤ b.length
    · rw [bind_ok (writeHeaderAndPayload_ok hheader.1 hheader.2)]
      have hlength := length_header hheader.2
      have hlong : ¬ (getPayload (utf8 s)).length + 8 ≤ b.length :=
        fun hb => hnot ⟨fun s hs => List.mem_singleton.mp hs ▸ hheader.1, hb⟩
      exact finishPacket_error crc32 hlength.symm (by omega) (by omega)
    · exact (writeHeaderAndPayload_error hheader).bind _

example : writeGetMessage (fun _ => 0x3387c9c0) 0 ['N'] (List.replicate 20 0) =
    some (.ok 20, [0, 4, 0, 12, 3, 10, 47, 116, 117, 110, 101, 114, 48, 47, 78, 0,
      0xc0, 0xc9, 0x87, 0x33]) := by rfl

theorem length_lockkeyPayload (lockkey : Option UInt32) : (lockkeyPayload lockkey).length ≤ 6 := by
  cases lockkey <;> simp [lockkeyPayload]

theorem length_setPayload (name value : List UInt8) (lockkey : Option UInt32) :
    (setPayload name value lockkey).length =
      name.length + value.length + 6 + (lockkeyPayload lockkey).length := by
  simp only [setPayload, length_append, List.length_cons, length_getPayload, length_framed]
  omega

theorem writes_setMessage (tuner : Int32) (name value : List Char) (lockkey : Option UInt32) :
    Writes crc32 (writeSetMessage crc32 tuner name value lockkey)
      [utf8 (tunerSetting tuner name), utf8 value]
      (setPayload (utf8 (tunerSetting tuner name)) (utf8 value) lockkey) := by
  generalize hs : tunerSetting tuner name = s
  have hlockkey := length_lockkeyPayload lockkey
  have hpayload := length_setPayload (utf8 s) (utf8 value) lockkey
  constructor
  · intro b hstrings hb
    have hname : FitsByte (utf8 s) := hstrings _ (by simp)
    have hvalue : FitsByte (utf8 value) := hstrings _ (by simp)
    have hbyte : (utf8 s).length + 1 < 256 := hname
    have hbyte' : (utf8 value).length + 1 < 256 := hvalue
    have hheader : (header b (utf8 s)).length = (utf8 s).length + 7 := length_header (by omega)
    simp only [writeSetMessage, hs]
    rw [bind_ok (writeHeaderAndPayload_ok hname (by omega)), size_bind, length_filled (by omega),
      refuseIf_neg (by omega), put_bind hheader.symm (by simp; omega),
      bind_ok (tail_filled ?_ ?_ (writeNullTerminatedString_ok hvalue ?_)),
      bind_ok (writeLockkey_ok ?_ ?_)]
    · refine finishPacket_ok crc32 ?_ (length_hole (b := b) (by omega)) rfl (by omega) hb
      simp only [header, setPayload, append_assoc, List.cons_append, List.nil_append]
    all_goals grind [length_framed]
  · intro b hnot
    simp only [writeSetMessage, hs]
    by_cases hheader : FitsByte (utf8 s) ∧ (utf8 s).length + 7 ≤ b.length
    · have hlength := length_header hheader.2
      rw [bind_ok (writeHeaderAndPayload_ok hheader.1 hheader.2), size_bind,
        length_filled (by omega)]
      by_cases hroom : b.length ≤ (utf8 s).length + 7
      · exact refuseIf_pos hroom _
      · rw [refuseIf_neg hroom, put_bind hlength.symm (by simp; omega)]
        by_cases hvalue : FitsByte (utf8 value) ∧
            (utf8 value).length + 2 ≤ (b.drop ((utf8 s).length + 8)).length
        · have hbound := hvalue.2
          rw [length_drop] at hbound
          have hvalued : (header b (utf8 s) ++ [getSetValue] ++ framed (utf8 value)).length =
              (utf8 s).length + (utf8 value).length + 10 := by
            simp only [length_append, List.length_singleton, length_framed]
            omega
          rw [bind_ok (tail_filled ?_ ?_ (writeNullTerminatedString_ok hvalue.1 ?_))]
          · by_cases hkey : (header b (utf8 s) ++ [getSetValue] ++ framed (utf8 value) ++
                lockkeyPayload lockkey).length ≤ b.length
            · rw [bind_ok (writeLockkey_ok (by omega) hkey)]
              have hlong : ¬ (setPayload (utf8 s) (utf8 value) lockkey).length + 8 ≤ b.length :=
                fun hb => hnot ⟨by simpa using ⟨hheader.1, hvalue.1⟩, hb⟩
              refine finishPacket_error crc32 rfl hkey ?_
              rw [length_append, hvalued]
              omega
            · exact (writeLockkey_error (by omega) (by omega) (by omega)).bind _
          all_goals grind
        · refine (tail_refuses ?_ ?_ (writeNullTerminatedString_error ?_)).bind _
          all_goals grind
    · exact (writeHeaderAndPayload_error hheader).bind _

/-! ### The reader -/

def tryGetReturnValueOfGetSet (buffer : List UInt8) : Reading (List UInt8) := do
  guard ¬ buffer.length < 8
  let split := buffer.length - 4
  let crc ← bytesAt buffer split buffer.length
  let checked ← bytesAt buffer 0 split
  guard (ofLe crc = (crc32 checked).toNat)
  let kind ← bytesAt buffer 0 2
  guard (ofBe kind = getSetReply)
  let msgLength ← bytesAt buffer 2 4
  guard (buffer.length = 2 + 2 + 4 + ofBe msgLength)
  let nameTag ← byteAt buffer 4
  guard (nameTag = getSetName)
  let nameLength ← byteAt buffer 5
  guard ¬ buffer.length < 4 + 1 + 6 + nameLength.toNat
  let offset := 6 + nameLength.toNat
  let valueTag ← byteAt buffer offset
  guard (valueTag = getSetValue)
  let valueLength ← byteAt buffer (offset + 1)
  let offset := offset + 2
  guard ¬ buffer.length < 4 + offset + valueLength.toNat
  -- a length without even a terminator
  guard (1 ≤ valueLength.toNat)
  let last := offset + (valueLength.toNat - 1)
  guard (offset ≤ last ∧ last ≤ buffer.length)
  return (buffer.take last).drop offset

/-- The packet of a reply that carries a value: the name and the value, each with its length, and
whatever else the payload says. -/
structure Reply where
  name : List UInt8
  value : List UInt8
  terminator : UInt8
  rest : List UInt8
  nameFits : name.length < 256
  valueFits : value.length + 1 < 256
  payloadFits : name.length + value.length + rest.length + 5 < 65536

namespace Reply

def payload (reply : Reply) : List UInt8 :=
  getSetName :: UInt8.ofNat reply.name.length :: reply.name ++
    getSetValue :: UInt8.ofNat (reply.value.length + 1) :: reply.value ++
    reply.terminator :: reply.rest

def bytes (reply : Reply) : List UInt8 := packet crc32 getSetReply reply.payload

@[simp] theorem length_payload (reply : Reply) :
    reply.payload.length = reply.name.length + reply.value.length + reply.rest.length + 5 := by
  simp only [payload, length_append, List.length_cons]
  omega

end Reply

theorem total_tryGetReturnValueOfGetSet (buffer : List UInt8) :
    Total (tryGetReturnValueOfGetSet crc32 buffer) := by
  unfold tryGetReturnValueOfGetSet
  refine total_guard_bind fun hsize => ?_
  refine total_bytesAt_bind (by omega) (by omega) ?_
  refine total_bytesAt_bind (by omega) (by omega) ?_
  refine total_guard_bind fun _ => ?_
  refine total_bytesAt_bind (by omega) (by omega) ?_
  refine total_guard_bind fun _ => ?_
  refine total_bytesAt_bind (by omega) (by omega) ?_
  refine total_guard_bind fun _ => ?_
  refine total_byteAt_bind (by omega) fun nameTag _ => ?_
  refine total_guard_bind fun _ => ?_
  refine total_byteAt_bind (by omega) fun nameLength _ => ?_
  refine total_guard_bind fun hname => ?_
  refine total_byteAt_bind (by omega) fun valueTag _ => ?_
  refine total_guard_bind fun _ => ?_
  refine total_byteAt_bind (by omega) fun valueLength _ => ?_
  refine total_guard_bind fun _ => ?_
  refine total_guard_bind fun _ => ?_
  refine total_guard_bind fun _ => ?_
  exact total_pure

theorem reads_tryGetReturnValueOfGetSet {buffer v : List UInt8} :
    Reads (tryGetReturnValueOfGetSet crc32 buffer) v ↔
      8 ≤ buffer.length ∧
      ofLe (buffer.drop (buffer.length - 4)) =
        (crc32 (buffer.take (buffer.length - 4))).toNat ∧
      ofBe (buffer.take 2) = getSetReply ∧
      buffer.length = ofBe ((buffer.take 4).drop 2) + 8 ∧
      buffer[4]? = some getSetName ∧
      ∃ nameLength, buffer[5]? = some nameLength ∧
        buffer[6 + nameLength.toNat]? = some getSetValue ∧
        ∃ valueLength, buffer[7 + nameLength.toNat]? = some valueLength ∧
          12 + nameLength.toNat + valueLength.toNat ≤ buffer.length ∧ 1 ≤ valueLength.toNat ∧
          (buffer.drop (8 + nameLength.toNat)).take (valueLength.toNat - 1) = v := by
  unfold tryGetReturnValueOfGetSet
  simp only [reads_guard_bind, reads_bytesAt_bind, reads_byteAt_bind, reads_pure]
  simp only [List.take_length, List.drop_zero, List.drop_take, Nat.add_sub_cancel_left]
  constructor
  · rintro ⟨hsize, -, -, hcrc, -, hkind, -, hlength, _, htag, rfl, n, hn, hname, _, hvtag, rfl,
      w, hw, hvalue, hone, -, hv⟩
    exact ⟨by omega, hcrc, hkind, by omega, htag, n, hn, hvtag, w,
      by rwa [Nat.add_right_comm] at hw, by omega, hone, by rwa [Nat.add_right_comm] at hv⟩
  · rintro ⟨hsize, hcrc, hkind, hlength, htag, n, hn, hvtag, w, hw, hvalue, hone, hv⟩
    exact ⟨by omega, by omega, by omega, hcrc, by omega, hkind, by omega, by omega, _, htag, rfl, n,
      hn, by omega, _, hvtag, rfl, w, by rwa [Nat.add_right_comm], by omega, hone, by omega,
      by rwa [Nat.add_right_comm]⟩

theorem drop_eq_cons {l : List UInt8} {i : Nat} {x : UInt8} (h : l[i]? = some x) :
    l.drop i = x :: l.drop (i + 1) := by
  obtain ⟨hi, rfl⟩ := List.getElem?_eq_some_iff.mp h
  exact List.drop_eq_getElem_cons hi

theorem drop_eq_append (l : List UInt8) (i k : Nat) :
    l.drop i = (l.drop i).take k ++ l.drop (i + k) := by
  rw [← List.drop_drop, List.take_append_drop]

theorem getElem?_bytes {reply : Reply} {i : Nat} (hi : i < reply.payload.length) :
    (reply.bytes crc32)[i + 4]? = reply.payload[i]? := by
  have hfour : (beBytes 2 getSetReply ++ beBytes 2 reply.payload.length).length = 4 := by simp
  rw [Reply.bytes, packet, List.getElem?_append_left (by rw [length_packetFront]; omega),
    packetFront, List.getElem?_append_right (by omega), hfour, Nat.add_sub_cancel]

theorem payload_of_reads {l : List UInt8} {n w t : UInt8} (htag : l[4]? = some getSetName)
    (hn : l[5]? = some n) (hvtag : l[6 + n.toNat]? = some getSetValue)
    (hw : l[7 + n.toNat]? = some w) (hone : 1 ≤ w.toNat)
    (ht : l[7 + n.toNat + w.toNat]? = some t) :
    l.drop 4 = getSetName :: n :: (l.drop 6).take n.toNat ++
      getSetValue :: w :: (l.drop (8 + n.toNat)).take (w.toNat - 1) ++
      t :: l.drop (8 + n.toNat + w.toNat) := by
  have hlast : 8 + n.toNat + (w.toNat - 1) = 7 + n.toNat + w.toNat := by omega
  have hnext : 7 + n.toNat + w.toNat + 1 = 8 + n.toNat + w.toNat := by omega
  have hvalue := drop_eq_append l (8 + n.toNat) (w.toNat - 1)
  rw [hlast, drop_eq_cons ht, hnext] at hvalue
  have hname := drop_eq_append l 6 n.toNat
  rw [drop_eq_cons hvtag, Nat.add_right_comm, drop_eq_cons hw, Nat.add_right_comm, hvalue] at hname
  calc l.drop 4 = getSetName :: n :: l.drop 6 := by rw [drop_eq_cons htag, drop_eq_cons hn]
    _ = getSetName :: n :: _ := congrArg (getSetName :: n :: ·) hname
    _ = _ := by simp only [List.cons_append, append_assoc]

theorem eq_bytes {buffer : List UInt8} {reply : Reply} (hsize : 8 ≤ buffer.length)
    (hcrc : ofLe (buffer.drop (buffer.length - 4)) =
      (crc32 (buffer.take (buffer.length - 4))).toNat)
    (hkind : ofBe (buffer.take 2) = getSetReply)
    (hlength : buffer.length = ofBe ((buffer.take 4).drop 2) + 8)
    (hpayload : (buffer.take (buffer.length - 4)).drop 4 = reply.payload) :
    buffer = reply.bytes crc32 := by
  have hcount : reply.payload.length = ofBe ((buffer.take 4).drop 2) := by
    rw [← hpayload, length_drop, length_take]
    omega
  have htwo : buffer.take 2 = beBytes 2 getSetReply :=
    eq_beBytes (by rw [length_take]; omega) hkind
  have hfour : (buffer.take 4).drop 2 = beBytes 2 reply.payload.length :=
    eq_beBytes (by rw [length_drop, length_take]; omega) hcount.symm
  have hheader : beBytes 2 getSetReply ++ beBytes 2 reply.payload.length = buffer.take 4 := by
    rw [← List.take_append_drop 2 (buffer.take 4), take_take, hfour, ← htwo]
    rfl
  have hfront : buffer.take (buffer.length - 4) = packetFront getSetReply reply.payload := by
    rw [← List.take_append_drop 4 (buffer.take (buffer.length - 4)), take_take,
      Nat.min_eq_left (by omega), hpayload, ← hheader]
    rfl
  have hback : buffer.drop (buffer.length - 4) =
      leBytes 4 (crc32 (packetFront getSetReply reply.payload)).toNat :=
    eq_leBytes (by rw [length_drop]; omega) (by rw [hcrc, hfront])
  calc buffer = buffer.take (buffer.length - 4) ++ buffer.drop (buffer.length - 4) :=
        (List.take_append_drop ..).symm
    _ = reply.bytes crc32 := by rw [hfront, hback]; rfl

theorem exists_reply {buffer v : List UInt8}
    (h : Reads (tryGetReturnValueOfGetSet crc32 buffer) v) :
    ∃ reply : Reply, reply.value = v ∧ buffer = reply.bytes crc32 := by
  obtain ⟨hsize, hcrc, hkind, hlength, htag, n, hn, hvtag, w, hw, hvalue, hone, rfl⟩ :=
    (reads_tryGetReturnValueOfGetSet crc32).mp h
  have hbyte := n.toNat_lt
  have hbyte' := w.toNat_lt
  have hsixteen : ofBe ((buffer.take 4).drop 2) < 256 ^ 2 := by
    have hlt := ofLe_lt ((buffer.take 4).drop 2).reverse
    rw [List.length_reverse, length_drop, length_take,
      Nat.min_eq_left (by omega)] at hlt
    exact hlt
  have hcut : (buffer.take (buffer.length - 4)).length = buffer.length - 4 := by simp
  have ht := List.getElem?_eq_getElem
    (show 7 + n.toNat + w.toNat < (buffer.take (buffer.length - 4)).length by omega)
  have hsame : ∀ i, i < buffer.length - 4 → (buffer.take (buffer.length - 4))[i]? = buffer[i]? :=
    fun i hi => List.getElem?_take_of_lt hi
  rw [← hsame 4 (by omega)] at htag
  rw [← hsame 5 (by omega)] at hn
  rw [← hsame _ (by omega)] at hvtag hw
  have hpayload := payload_of_reads htag hn hvtag hw hone ht
  have hvalueOf : ((buffer.take (buffer.length - 4)).drop (8 + n.toNat)).take (w.toNat - 1) =
      (buffer.drop (8 + n.toNat)).take (w.toNat - 1) := by
    rw [List.drop_take, take_take, Nat.min_eq_left (by omega)]
  have hname : (((buffer.take (buffer.length - 4)).drop 6).take n.toNat).length = n.toNat := by
    rw [length_take, length_drop, hcut]
    omega
  have hvalueLength : ((buffer.drop (8 + n.toNat)).take (w.toNat - 1)).length + 1 = w.toNat := by
    rw [length_take, length_drop]
    omega
  refine ⟨⟨((buffer.take (buffer.length - 4)).drop 6).take n.toNat,
    (buffer.drop (8 + n.toNat)).take (w.toNat - 1),
    (buffer.take (buffer.length - 4))[7 + n.toNat + w.toNat],
    (buffer.take (buffer.length - 4)).drop (8 + n.toNat + w.toNat), by omega, by omega, ?_⟩, rfl,
    eq_bytes crc32 hsize hcrc hkind hlength ?_⟩
  · rw [length_drop]
    omega
  · rw [hpayload, hvalueOf, Reply.payload]
    simp only [hname, hvalueLength, UInt8.ofNat_toNat]

theorem reads_bytes (reply : Reply) :
    Reads (tryGetReturnValueOfGetSet crc32 (reply.bytes crc32)) reply.value := by
  rw [reads_tryGetReturnValueOfGetSet]
  have hpayload := reply.length_payload
  have hlength : (reply.bytes crc32).length = reply.payload.length + 8 := length_packet ..
  have hfront : (reply.bytes crc32).take (reply.payload.length + 4) =
      packetFront getSetReply reply.payload := by
    rw [Reply.bytes, packet, ← length_packetFront getSetReply, List.take_left]
  have hback : (reply.bytes crc32).drop (reply.payload.length + 4) =
      leBytes 4 (crc32 (packetFront getSetReply reply.payload)).toNat := by
    rw [Reply.bytes, packet, ← length_packetFront getSetReply, List.drop_left]
  have hcut : (reply.bytes crc32).length - 4 = reply.payload.length + 4 := by omega
  have hname : (UInt8.ofNat reply.name.length).toNat = reply.name.length :=
    UInt8.toNat_ofNat_of_lt' reply.nameFits
  have hvalue : (UInt8.ofNat (reply.value.length + 1)).toNat = reply.value.length + 1 :=
    UInt8.toNat_ofNat_of_lt' reply.valueFits
  refine ⟨by omega, ?_, ?_, ?_, ?_, .ofNat reply.name.length, ?_, ?_,
    .ofNat (reply.value.length + 1), ?_, by omega, by omega, ?_⟩
  · rw [hcut, hfront, hback, ofLe_leBytes]
    exact UInt32.toNat_lt _
  · have htwo : (reply.bytes crc32).take 2 = beBytes 2 getSetReply := by
      rw [Reply.bytes, packet, packetFront, append_assoc, append_assoc]
      exact List.take_left' (length_beBytes ..)
    rw [htwo, ofBe_beBytes (by decide)]
  · have hfour : ((reply.bytes crc32).take 4).drop 2 = beBytes 2 reply.payload.length := by
      rw [Reply.bytes, packet, packetFront, append_assoc,
        List.take_left' (by simp), List.drop_left' (length_beBytes ..)]
    rw [hfour, ofBe_beBytes (by have := reply.payloadFits; omega), hlength]
  · rw [getElem?_bytes crc32 (i := 0) (by omega)]
    rfl
  · rw [getElem?_bytes crc32 (i := 1) (by omega)]
    rfl
  · rw [hname, Nat.add_comm 6, getElem?_bytes crc32 (i := reply.name.length + 2) (by omega)]
    simp [Reply.payload]
  · rw [hname, Nat.add_comm 7, getElem?_bytes crc32 (i := reply.name.length + 3) (by omega)]
    simp [Reply.payload]
  · rw [hname, hvalue, Nat.add_sub_cancel]
    have hbefore : reply.bytes crc32 = (beBytes 2 getSetReply ++ beBytes 2 reply.payload.length ++
        getSetName :: UInt8.ofNat reply.name.length :: reply.name ++
        [getSetValue, UInt8.ofNat (reply.value.length + 1)]) ++ (reply.value ++
        (reply.terminator :: reply.rest ++
          leBytes 4 (crc32 (packetFront getSetReply reply.payload)).toNat)) := by
      simp only [Reply.bytes, packet, packetFront, Reply.payload, append_assoc,
        List.cons_append, List.nil_append]
    rw [hbefore, List.drop_left' (by simp; omega), List.take_left' rfl]

/-- **Packets**: requests are written framed, or refused when they do not fit; and the reader, which
never stops the program, accepts the packets of replies with the value they carry, and rejects
every other buffer. -/
theorem packet_codec :
    (∀ tuner name, Writes crc32 (writeGetMessage crc32 tuner name)
      [utf8 (tunerSetting tuner name)] (getPayload (utf8 (tunerSetting tuner name)))) ∧
    (∀ tuner name value lockkey, Writes crc32 (writeSetMessage crc32 tuner name value lockkey)
      [utf8 (tunerSetting tuner name), utf8 value]
      (setPayload (utf8 (tunerSetting tuner name)) (utf8 value) lockkey)) ∧
    (∀ buffer, Total (tryGetReturnValueOfGetSet crc32 buffer)) ∧
    ∀ buffer v, Reads (tryGetReturnValueOfGetSet crc32 buffer) v ↔
      ∃ reply : Reply, reply.value = v ∧ buffer = reply.bytes crc32 := by
  refine ⟨writes_getMessage crc32, writes_setMessage crc32, total_tryGetReturnValueOfGetSet crc32,
    fun buffer v => ⟨exists_reply crc32, ?_⟩⟩
  rintro ⟨reply, rfl, rfl⟩
  exact reads_bytes crc32 reply

end Ferrofin.HdHomerun
