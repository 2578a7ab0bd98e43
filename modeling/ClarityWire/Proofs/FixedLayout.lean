import ClarityWire.Proofs.Items

/-!
# Items of a fixed layout

Whatever is no value has a layout that is told without its reader and its writer: numbers stand most
significant byte first, signed ones in two's complement, a name behind its length. An item is
written as the bytes of its layout and is read from those and no others.
-/

namespace ClarityWire

/-- The signed number that a byte string denotes, as a two's complement of its length. -/
def Bytes.toInt (bytes : Bytes) : Int :=
  if 2 * toNat bytes < 256 ^ bytes.length then (toNat bytes : Int)
  else (toNat bytes : Int) - 256 ^ bytes.length

theorem Bytes.toInt_eq_toInt_iff {bytes : Bytes} (h : bytes.length = 16) (bits : BitVec 128) :
    toInt bytes = bits.toInt ↔ toNat bytes = bits.toNat := by
  have hbytes := toNat_lt bytes
  have hbits := bits.isLt
  rw [toInt, BitVec.toInt_eq_toNat_cond, h]
  rw [h] at hbytes
  constructor
  · intro heq
    split_ifs at heq <;> omega
  · intro heq
    rw [heq]
    norm_num

namespace WireType

/-- The layout of a name: the number of its bytes, and then these. -/
def NameLayout {kind : NameKind} (name : Name kind) (bytes : Bytes) : Prop :=
  ∃ length : UInt8, length.toNat = (Utf8.ofString name.text).length ∧
    bytes = length :: Utf8.ofString name.text

/-- The layout of an item that is no value. -/
def Layout : (type : WireType) → type.Item → Bytes → Prop
  | .byte, item, bytes => bytes.length = 1 ∧ Bytes.toNat bytes = UInt8.toNat item
  | .word32, item, bytes => bytes.length = 4 ∧ Bytes.toNat bytes = UInt32.toNat item
  | .uint128, item, bytes => bytes.length = 16 ∧ Bytes.toNat bytes = BitVec.toNat item
  | .int128, item, bytes => bytes.length = 16 ∧ Bytes.toInt bytes = BitVec.toInt item
  | .hash160, item, bytes => bytes = item.1
  | .stacksAddress, item, bytes => bytes = item.version :: item.hash.1
  | .clarityName, item, bytes => NameLayout item bytes
  | .contractName, item, bytes => NameLayout item bytes
  | .value, _, _ => False
  | .clarityValue, _, _ => False

/-- The number of bytes of an item, where all items of the type have the same. -/
def width? : WireType → Option Nat
  | .byte => some 1
  | .word32 => some 4
  | .uint128 => some 16
  | .int128 => some 16
  | .hash160 => some 20
  | .stacksAddress => some 21
  | _ => none

variable {type : WireType}

/-! ## The bytes of an item -/

theorem toBytes_eq (type : WireType) (item : type.Item) {bytes : Bytes}
    (h : type.encoder item = Encoder.writeCounted bytes) : type.toBytes item = bytes := by
  rw [toBytes, h, Encoder.toBytes_writeCounted]

theorem wireBytes_eq_iff_nameLayout {kind : NameKind} (name : Name kind) (bytes : Bytes) :
    name.wireBytes = bytes ↔ NameLayout name bytes := by
  -- the length of a name fits its byte
  have hlength : (UInt8.ofNat name.bytes.length).toNat = name.bytes.length :=
    Nat.mod_eq_of_lt name.length_bytes_lt
  constructor
  · rintro rfl
    exact ⟨_, hlength, rfl⟩
  · rintro ⟨length, hname, rfl⟩
    have hbyte : UInt8.ofNat name.bytes.length = length :=
      UInt8.toNat_inj.mp (hlength.trans hname.symm)
    rw [Name.wireBytes, hbyte]
    rfl

private theorem readsOnly_of_writes {spelling : type.Item → Bytes}
    (hreads : type.decoder.ReadsOnly fun item front => front = spelling item)
    (hwrites : ∀ item, type.encoder item = Encoder.writeCounted (spelling item)) :
    type.decoder.ReadsOnly fun item front => front = type.toBytes item := by
  apply hreads.mono
  intro item front h
  rw [h, toBytes_eq type item (hwrites item)]

section

variable (hvalue : type ≠ .value) (hspanned : type ≠ .clarityValue)
include hvalue hspanned

theorem toBytes_eq_iff_layout (item : type.Item) (bytes : Bytes) :
    type.toBytes item = bytes ↔ type.Layout item bytes := by
  cases type with
  | byte =>
    have hbytes : byte.toBytes item = Bytes.ofNat 1 (UInt8.toNat item) :=
      toBytes_eq _ item (Encoder.number_eq 1 _)
    rw [hbytes]
    exact Bytes.ofNat_eq_iff (UInt8.toNat_lt item)
  | word32 =>
    have hbytes : word32.toBytes item = Bytes.ofNat 4 (UInt32.toNat item) :=
      toBytes_eq _ item (Encoder.word32_eq item)
    rw [hbytes]
    exact Bytes.ofNat_eq_iff (UInt32.toNat_lt item)
  | uint128 =>
    have hbytes : uint128.toBytes item = Bytes.ofNat 16 (BitVec.toNat item) :=
      toBytes_eq _ item (Encoder.word128_eq item)
    rw [hbytes]
    exact Bytes.ofNat_eq_iff (BitVec.isLt item)
  | int128 =>
    have hbytes : int128.toBytes item = Bytes.ofNat 16 (BitVec.toNat item) :=
      toBytes_eq _ item (Encoder.word128_eq item)
    rw [hbytes, Bytes.ofNat_eq_iff (BitVec.isLt item)]
    exact and_congr_right fun h => (Bytes.toInt_eq_toInt_iff h item).symm
  | hash160 =>
    rw [toBytes_eq .hash160 item (Encoder.block_eq item)]
    exact eq_comm
  | stacksAddress =>
    rw [toBytes_eq .stacksAddress item (Encoder.stacksAddress_eq item)]
    exact eq_comm
  | clarityName =>
    rw [toBytes_eq .clarityName item (Encoder.name_eq item)]
    exact wireBytes_eq_iff_nameLayout item bytes
  | contractName =>
    rw [toBytes_eq .contractName item (Encoder.name_eq item)]
    exact wireBytes_eq_iff_nameLayout item bytes
  | value => exact absurd rfl hvalue
  | clarityValue => exact absurd rfl hspanned

/-! ## Reading -/

theorem answers_toBytes (item : type.Item) (offset : Nat) :
    type.decoder.Answers offset (type.toBytes item) (.ok item) := by
  have hanswer : type.RoundTrips item → ∃ read,
      type.decoder.Answers offset (type.toBytes item) (.ok read) ∧ type.Same read item :=
    fun h => decoder_answers h offset
  cases type with
  | value => exact absurd rfl hvalue
  | clarityValue => exact absurd rfl hspanned
  | _ =>
    obtain ⟨read, hread, rfl⟩ := hanswer trivial
    exact hread

theorem readsOnly_toBytes :
    type.decoder.ReadsOnly fun item front => front = type.toBytes item := by
  cases type with
  | byte => exact readsOnly_of_writes Decoder.byte_readsOnly Encoder.byte_eq
  | word32 => exact readsOnly_of_writes Decoder.word32_readsOnly Encoder.word32_eq
  | uint128 => exact readsOnly_of_writes Decoder.word128_readsOnly Encoder.word128_eq
  | int128 => exact readsOnly_of_writes Decoder.word128_readsOnly Encoder.word128_eq
  | hash160 => exact readsOnly_of_writes (Decoder.block_readsOnly 20) Encoder.block_eq
  | stacksAddress =>
    exact readsOnly_of_writes Decoder.stacksAddress_readsOnly Encoder.stacksAddress_eq
  | clarityName => exact readsOnly_of_writes (Decoder.name_readsOnly .clarity) Encoder.name_eq
  | contractName => exact readsOnly_of_writes (Decoder.name_readsOnly .contract) Encoder.name_eq
  | value => exact absurd rfl hvalue
  | clarityValue => exact absurd rfl hspanned

/-- An item is read exactly where its bytes stand. -/
theorem decodeFront_eq_ok_iff_toBytes {bytes : Bytes} {item : type.Item} {n : Nat} :
    type.decoder.decodeFront bytes = .ok (item, n) ↔
      ∃ rest, bytes = type.toBytes item ++ rest ∧ n = (type.toBytes item).length :=
  Decoder.decodeFront_eq_ok_iff_spelling (fun item => answers_toBytes hvalue hspanned item 0)
    (readsOnly_toBytes hvalue hspanned)

end

/-! ## All bytes of a width -/

private theorem toNat_mod_of_length {bytes : Bytes} {width bound : Nat} (h : bytes.length = width)
    (hbound : 256 ^ width = bound) : Bytes.toNat bytes % bound = Bytes.toNat bytes := by
  have hlt := Bytes.toNat_lt bytes
  rw [h, hbound] at hlt
  exact Nat.mod_eq_of_lt hlt

theorem exists_layout_of_length {width : Nat} (hwidth : type.width? = some width) {bytes : Bytes}
    (h : bytes.length = width) : ∃ item, type.Layout item bytes := by
  cases type <;> cases hwidth
  case byte =>
    exact ⟨UInt8.ofNat (Bytes.toNat bytes), h, (toNat_mod_of_length h rfl).symm⟩
  case word32 =>
    exact ⟨UInt32.ofNat (Bytes.toNat bytes), h, (toNat_mod_of_length h rfl).symm⟩
  case uint128 =>
    exact ⟨BitVec.ofNat 128 (Bytes.toNat bytes), h, (toNat_mod_of_length h rfl).symm⟩
  case int128 =>
    refine ⟨BitVec.ofNat 128 (Bytes.toNat bytes), h, ?_⟩
    rw [Bytes.toInt_eq_toInt_iff h]
    exact (toNat_mod_of_length h rfl).symm
  case hash160 => exact ⟨⟨bytes, h⟩, rfl⟩
  case stacksAddress =>
    obtain ⟨version, hash, rfl⟩ := List.exists_cons_of_length_eq_add_one h
    exact ⟨⟨version, hash, Nat.succ.inj h⟩, rfl⟩

theorem length_of_layout {width : Nat} (hwidth : type.width? = some width) {item : type.Item}
    {bytes : Bytes} (h : type.Layout item bytes) : bytes.length = width := by
  cases type <;> cases hwidth
  case byte | word32 | uint128 | int128 => exact h.1
  case hash160 => exact (congrArg List.length h).trans item.2
  case stacksAddress =>
    have hlength : bytes.length = item.hash.1.length + 1 := congrArg List.length h
    rw [hlength, item.hash.2]

/-- **Items of a fixed layout and their bytes tell each other.** An item that is no value is read
back from its bytes in front of anything. What is read of a byte string is the item that the bytes
taken are written for. These bytes are those of its layout, and where all items have one width, any
byte string of that width is the bytes of an item. -/
theorem decodeFront_inverts_toBytes (type : WireType) (hvalue : type ≠ .value)
    (hspanned : type ≠ .clarityValue) :
    (∀ (item : type.Item) (rest : Bytes), type.decoder.decodeFront (type.toBytes item ++ rest) =
        .ok (item, (type.toBytes item).length)) ∧
      (∀ (bytes : Bytes) (item : type.Item) (n : Nat),
        type.decoder.decodeFront bytes = .ok (item, n) →
          n ≤ bytes.length ∧ type.toBytes item = bytes.take n) ∧
      (∀ (item : type.Item) (bytes : Bytes), type.toBytes item = bytes ↔ type.Layout item bytes) ∧
      ∀ width, type.width? = some width →
        ∀ bytes : Bytes, bytes.length = width ↔ ∃ item, type.toBytes item = bytes := by
  refine ⟨?_, ?_, ?_, ?_⟩
  · intro item rest
    exact (decodeFront_eq_ok_iff_toBytes hvalue hspanned).mpr ⟨rest, rfl, rfl⟩
  · intro bytes item n h
    obtain ⟨rest, rfl, rfl⟩ := (decodeFront_eq_ok_iff_toBytes hvalue hspanned).mp h
    refine ⟨?_, List.take_left.symm⟩
    rw [List.length_append]
    exact Nat.le_add_right _ _
  · intro item bytes
    exact toBytes_eq_iff_layout hvalue hspanned item bytes
  · intro width hwidth bytes
    simp only [toBytes_eq_iff_layout hvalue hspanned]
    exact ⟨exists_layout_of_length hwidth, fun ⟨_, h⟩ => length_of_layout hwidth h⟩

theorem decodeFront_inverts_toBytes_leastSigned :
    int128.decoder.decodeFront (0x80 :: List.replicate 15 0 ++ [0xff]) =
        .ok (BitVec.ofInt 128 (-2 ^ 127), 16) ∧
      int128.toBytes (BitVec.ofInt 128 (-2 ^ 127)) =
        List.take 16 (0x80 :: List.replicate 15 0 ++ [0xff]) ∧
      int128.Layout (BitVec.ofInt 128 (-2 ^ 127)) (0x80 :: List.replicate 15 0) ∧
        ∃ item, int128.toBytes item = List.replicate 16 0xff := by
  obtain ⟨hread, hwrite, hlayout, hwidth⟩ := decodeFront_inverts_toBytes .int128 nofun nofun
  have hbytes : int128.toBytes (BitVec.ofInt 128 (-2 ^ 127)) = 0x80 :: List.replicate 15 0 := by
    rfl
  have hfront := hread (BitVec.ofInt 128 (-2 ^ 127)) [0xff]
  rw [hbytes] at hfront
  exact ⟨hfront, (hwrite _ _ _ hfront).2, (hlayout _ _).mp hbytes, (hwidth 16 rfl _).mp rfl⟩

end WireType

end ClarityWire
