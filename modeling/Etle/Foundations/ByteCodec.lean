import Etle.Foundations.Bytes

/-!
# Self-delimiting byte codecs

A codec writes a value as bytes that the same codec can read back in front of any further bytes.
This law is a field, so that a codec assembled from smaller ones is correct by construction.  The
basic codecs follow the variable-length integers of the `bincode` standard configuration: a small
value is one byte, a larger one is a marker followed by two, four or eight bytes.
-/

namespace Etle

/-- A way to write values so that they can be read back from the front of a byte string. -/
structure ByteCodec (α : Type) where
  encode : α → Option Bytes
  decode : Bytes → Option (α × Bytes)
  decode_encode : ∀ {value bytes}, encode value = some bytes →
    ∀ rest, decode (bytes ++ rest) = some (value, rest)

namespace ByteCodec

variable {α β : Type}

/-- No bytes at all. -/
def empty : ByteCodec Unit where
  encode _ := some []
  decode bytes := some ((), bytes)
  decode_encode := by
    rintro _ bytes encoded rest
    obtain rfl : [] = bytes := by simpa using encoded
    rfl

/-- A fixed number of bytes. -/
def exact (width : Nat) : ByteCodec (Vector UInt8 width) where
  encode value := some value.toList
  decode bytes := do
    let (front, rest) ← takeExact width bytes
    return (← vectorOfBytes width front, rest)
  decode_encode := by
    intro value bytes encoded rest
    obtain rfl : value.toList = bytes := by simpa using encoded
    simp [takeExact_append (show value.toList.length = width by simp)]

/-- Write a value through another type.  Either direction may refuse, but what is written must be
read back. -/
def via (codec : ByteCodec α) (into : β → Option α) (back : α → Option β)
    (inverse : ∀ value image, into value = some image → back image = some value) :
    ByteCodec β where
  encode value := do codec.encode (← into value)
  decode bytes := do
    let (image, rest) ← codec.decode bytes
    return (← back image, rest)
  decode_encode := by
    intro value bytes encoded rest
    obtain ⟨image, mapped, written⟩ := Option.bind_eq_some_iff.mp encoded
    simp [codec.decode_encode written rest, inverse _ _ mapped]

/-- One value after another. -/
def pair (first : ByteCodec α) (second : ByteCodec β) : ByteCodec (α × β) where
  encode value := do return (← first.encode value.1) ++ (← second.encode value.2)
  decode bytes := do
    let (left, rest) ← first.decode bytes
    let (right, rest) ← second.decode rest
    return ((left, right), rest)
  decode_encode := by
    rintro ⟨left, right⟩ bytes encoded rest
    simp only [Option.bind_eq_bind, Option.pure_def, Option.bind_eq_some_iff,
      Option.some.injEq] at encoded
    obtain ⟨front, wrote_left, back, wrote_right, rfl⟩ := encoded
    simp [List.append_assoc, first.decode_encode wrote_left, second.decode_encode wrote_right]

/-! ## Integers -/

/-- A marker that announces an integer of the given width, and what fits it. -/
def markerOf (value : Nat) : Option (UInt8 × Nat) :=
  if value < 2 ^ 16 then some (251, 2)
  else if value < 2 ^ 32 then some (252, 4)
  else if value < 2 ^ 64 then some (253, 8)
  else none

/-- The width a marker announces. -/
def widthOf (marker : UInt8) : Option Nat :=
  if marker = 251 then some 2
  else if marker = 252 then some 4
  else if marker = 253 then some 8
  else none

theorem markerOf_eq_some {value width : Nat} {marker : UInt8}
    (marked : markerOf value = some (marker, width)) :
    ¬marker < 251 ∧ widthOf marker = some width ∧ value < 256 ^ width := by
  unfold markerOf at marked
  split at marked
  · obtain ⟨rfl, rfl⟩ : 251 = marker ∧ 2 = width := by simpa using marked
    exact ⟨by decide, by decide, by simpa⟩
  · split at marked
    · obtain ⟨rfl, rfl⟩ : 252 = marker ∧ 4 = width := by simpa using marked
      exact ⟨by decide, by decide, by simpa⟩
    · split at marked
      · obtain ⟨rfl, rfl⟩ : 253 = marker ∧ 8 = width := by simpa using marked
        exact ⟨by decide, by decide, by simpa⟩
      · cases marked

theorem toNat_ofNat_of_unmarked {value : Nat} (small : value < 251) :
    (UInt8.ofNat value).toNat = value := by
  rw [UInt8.toNat_ofNat']
  omega

/-- An integer of at most `limit` bytes in variable length. -/
def varint (limit : Nat) : ByteCodec Nat where
  encode value :=
    if value < 251 then some [UInt8.ofNat value]
    else do
      let (marker, width) ← markerOf value
      if width ≤ limit then return marker :: leBytes width value else none
  decode
    | [] => none
    | first :: rest =>
        if first < 251 then some (first.toNat, rest)
        else do
          let width ← widthOf first
          if width ≤ limit then
            let (front, rest) ← takeExact width rest
            return (leValue front, rest)
          else none
  decode_encode := by
    intro value bytes encoded rest
    simp only at encoded
    split at encoded
    · rename_i small
      obtain rfl : [UInt8.ofNat value] = bytes := by simpa using encoded
      have back := toNat_ofNat_of_unmarked small
      have first_small : UInt8.ofNat value < 251 := by
        rw [UInt8.lt_iff_toNat_lt, back]
        exact small
      simp only [List.singleton_append, if_pos first_small, back]
    · obtain ⟨⟨marker, width⟩, marked, written⟩ := Option.bind_eq_some_iff.mp encoded
      obtain ⟨large, announced, fits⟩ := markerOf_eq_some marked
      simp only at written
      split at written
      · rename_i allowed
        obtain rfl : marker :: leBytes width value = bytes := by simpa using written
        simp [large, announced, allowed, takeExact_append (length_leBytes width value),
          leValue_leBytes fits]
      · cases written

/-- An unsigned 16-bit integer. -/
def uint16 : ByteCodec UInt16 :=
  (varint 2).via (fun value => some value.toNat) (fun value => some (UInt16.ofNat value)) (by
    intro value image mapped
    obtain rfl : value.toNat = image := by simpa using mapped
    simp)

/-- An unsigned 32-bit integer. -/
def uint32 : ByteCodec UInt32 :=
  (varint 4).via (fun value => some value.toNat) (fun value => some (UInt32.ofNat value)) (by
    intro value image mapped
    obtain rfl : value.toNat = image := by simpa using mapped
    simp)

/-- An unsigned 64-bit integer. -/
def uint64 : ByteCodec UInt64 :=
  (varint 8).via (fun value => some value.toNat) (fun value => some (UInt64.ofNat value)) (by
    intro value image mapped
    obtain rfl : value.toNat = image := by simpa using mapped
    simp)

/-! ## Sequences -/

/-- One byte. -/
def byte : ByteCodec UInt8 where
  encode value := some [value]
  decode
    | [] => none
    | first :: rest => some (first, rest)
  decode_encode := by
    intro value bytes encoded rest
    obtain rfl : [value] = bytes := by simpa using encoded
    rfl

/-- The items of a sequence one after another. -/
def encodeItems (item : ByteCodec α) : List α → Option Bytes
  | [] => some []
  | value :: rest => do return (← item.encode value) ++ (← encodeItems item rest)

/-- A known number of items. -/
def decodeItems (item : ByteCodec α) : Nat → Bytes → Option (List α × Bytes)
  | 0, bytes => some ([], bytes)
  | count + 1, bytes => do
      let (value, rest) ← item.decode bytes
      let (values, rest) ← decodeItems item count rest
      return (value :: values, rest)

theorem decodeItems_encodeItems (item : ByteCodec α) {values : List α} {bytes : Bytes}
    (encoded : encodeItems item values = some bytes) (rest : Bytes) :
    decodeItems item values.length (bytes ++ rest) = some (values, rest) := by
  induction values generalizing bytes with
  | nil =>
      obtain rfl : [] = bytes := by simpa [encodeItems] using encoded
      rfl
  | cons value values ih =>
      simp only [encodeItems, Option.bind_eq_bind, Option.pure_def, Option.bind_eq_some_iff,
        Option.some.injEq] at encoded
      obtain ⟨front, wrote_value, back, wrote_values, rfl⟩ := encoded
      simp [decodeItems, List.append_assoc, item.decode_encode wrote_value, ih wrote_values]

/-- A sequence preceded by its length. -/
def list (item : ByteCodec α) : ByteCodec (List α) where
  encode values := do
    return (← (varint 8).encode values.length) ++ (← encodeItems item values)
  decode bytes := do
    let (count, rest) ← (varint 8).decode bytes
    decodeItems item count rest
  decode_encode := by
    intro values bytes encoded rest
    simp only [Option.bind_eq_bind, Option.pure_def, Option.bind_eq_some_iff,
      Option.some.injEq] at encoded
    obtain ⟨front, wrote_length, back, wrote_items, rfl⟩ := encoded
    simp [List.append_assoc, (varint 8).decode_encode wrote_length,
      decodeItems_encodeItems item wrote_items]

/-- A text as the bytes of its UTF-8 encoding. -/
def text : ByteCodec String :=
  (list byte).via (fun value => some (utf8 value)) textOfUtf8 (by
    intro value image mapped
    obtain rfl : utf8 value = image := by simpa using mapped
    simp)

/-- An optional value: a byte that says whether there is one, and the value. -/
def option (item : ByteCodec α) : ByteCodec (Option α) where
  encode
    | none => some [0]
    | some value => do return 1 :: (← item.encode value)
  decode
    | 0 :: rest => some (none, rest)
    | 1 :: rest => do
        let (value, rest) ← item.decode rest
        return (some value, rest)
    | _ => none
  decode_encode := by
    intro value bytes encoded rest
    cases value with
    | none =>
        obtain rfl : [0] = bytes := by simpa using encoded
        rfl
    | some value =>
        obtain ⟨body, written, rfl⟩ :
            ∃ body, item.encode value = some body ∧ 1 :: body = bytes := by
          simpa [Option.bind_eq_some_iff] using encoded
        simp [item.decode_encode written]

/-! ## Enumerations -/

/-- A value of an enumeration as the number of its variant followed by what the variant holds. -/
def variants (index : α → Nat) (variant : Nat → Option (ByteCodec α)) : ByteCodec α where
  encode value := do
    let codec ← variant (index value)
    return (← (varint 4).encode (index value)) ++ (← codec.encode value)
  decode bytes := do
    let (index, rest) ← (varint 4).decode bytes
    let codec ← variant index
    codec.decode rest
  decode_encode := by
    intro value bytes encoded rest
    simp only [Option.bind_eq_bind, Option.pure_def, Option.bind_eq_some_iff,
      Option.some.injEq] at encoded
    obtain ⟨codec, found, front, wrote_index, back, wrote_value, rfl⟩ := encoded
    simp [List.append_assoc, (varint 4).decode_encode wrote_index, found,
      codec.decode_encode wrote_value]

/-- The encoding of a variant with a small number starts with this number. -/
theorem head_variants {index : α → Nat} {variant : Nat → Option (ByteCodec α)} {value : α}
    {bytes : Bytes} (encoded : (variants index variant).encode value = some bytes)
    (small : index value < 251) :
    bytes.head? = some (UInt8.ofNat (index value)) := by
  simp only [variants, Option.bind_eq_bind, Option.pure_def, Option.bind_eq_some_iff,
    Option.some.injEq] at encoded
  obtain ⟨codec, found, front, wrote_index, back, wrote_value, rfl⟩ := encoded
  obtain rfl : [UInt8.ofNat (index value)] = front := by simpa [varint, small] using wrote_index
  rfl

/-! ## Sizes -/

/-- Every encoding has the stated size, and a value whose size a buffer can have is encoded. -/
structure Sized (codec : ByteCodec α) (size : α → Nat) : Prop where
  length : ∀ {value bytes}, codec.encode value = some bytes → bytes.length = size value
  total : ∀ value, size value < 2 ^ 64 → ∃ bytes, codec.encode value = some bytes

/-- The size of an integer of variable length. -/
def varintSize (value : Nat) : Nat :=
  if value < 251 then 1 else if value < 2 ^ 16 then 3 else if value < 2 ^ 32 then 5 else 9

theorem varintSize_pos (value : Nat) : 0 < varintSize value := by
  unfold varintSize
  split_ifs <;> omega

theorem varintSize_mono {smaller larger : Nat} (le : smaller ≤ larger) :
    varintSize smaller ≤ varintSize larger := by
  unfold varintSize
  split_ifs <;> omega

theorem length_varint {limit value : Nat} {bytes : Bytes}
    (encoded : (varint limit).encode value = some bytes) : bytes.length = varintSize value := by
  simp only [varint] at encoded
  unfold varintSize
  split at encoded
  · obtain rfl : [UInt8.ofNat value] = bytes := by simpa using encoded
    simp_all
  · rename_i large
    obtain ⟨⟨marker, width⟩, marked, written⟩ := Option.bind_eq_some_iff.mp encoded
    simp only at written
    split at written
    · obtain rfl : marker :: leBytes width value = bytes := by simpa using written
      rw [List.length_cons, length_leBytes, if_neg large]
      unfold markerOf at marked
      split_ifs at marked ⊢ <;> simp_all
    · cases written

theorem encode_varint {limit value : Nat} (limits : limit = 2 ∨ limit = 4 ∨ limit = 8)
    (fits : value < 256 ^ limit) : ∃ bytes, (varint limit).encode value = some bytes := by
  simp only [varint]
  split
  · exact ⟨_, rfl⟩
  · unfold markerOf
    obtain rfl | rfl | rfl := limits <;> split_ifs <;> simp_all

theorem sized_exact (width : Nat) : (ByteCodec.exact width).Sized fun _ => width where
  length := by
    intro value bytes encoded
    obtain rfl : value.toList = bytes := by simpa [ByteCodec.exact] using encoded
    simp
  total := fun value _ => ⟨value.toList, rfl⟩

theorem sized_byte : byte.Sized fun _ => 1 where
  length := by
    intro value bytes encoded
    obtain rfl : [value] = bytes := by simpa [byte] using encoded
    rfl
  total := fun value _ => ⟨[value], rfl⟩

theorem Sized.via {codec : ByteCodec α} {size : α → Nat} (sized : codec.Sized size)
    (into : β → α) (back : α → Option β)
    (inverse : ∀ value image, some (into value) = some image → back image = some value) :
    (codec.via (fun value => some (into value)) back inverse).Sized fun value =>
      size (into value) where
  length := fun encoded => sized.length encoded
  total := fun value small => sized.total (into value) small

theorem sized_uint32 : uint32.Sized fun value => varintSize value.toNat where
  length := fun encoded => length_varint encoded
  total := fun value _ => encode_varint (by decide) value.toNat_lt

theorem sized_uint64 : uint64.Sized fun value => varintSize value.toNat where
  length := fun encoded => length_varint encoded
  total := fun value _ => encode_varint (by decide) value.toNat_lt

theorem Sized.pair {first : ByteCodec α} {second : ByteCodec β} {firstSize : α → Nat}
    {secondSize : β → Nat} (sized_first : first.Sized firstSize)
    (sized_second : second.Sized secondSize) :
    (first.pair second).Sized fun value => firstSize value.1 + secondSize value.2 where
  length := by
    intro value bytes encoded
    simp only [ByteCodec.pair, Option.bind_eq_bind, Option.pure_def, Option.bind_eq_some_iff,
      Option.some.injEq] at encoded
    obtain ⟨front, wrote_first, back, wrote_second, rfl⟩ := encoded
    rw [List.length_append, sized_first.length wrote_first, sized_second.length wrote_second]
  total := by
    intro value small
    obtain ⟨front, wrote_first⟩ := sized_first.total value.1 (by omega)
    obtain ⟨back, wrote_second⟩ := sized_second.total value.2 (by omega)
    exact ⟨front ++ back, by simp [ByteCodec.pair, wrote_first, wrote_second]⟩

theorem Sized.items {item : ByteCodec α} {size : α → Nat} (sized : item.Sized size)
    {values : List α} {bytes : Bytes} (encoded : encodeItems item values = some bytes) :
    bytes.length = (values.map size).sum := by
  induction values generalizing bytes with
  | nil =>
      obtain rfl : [] = bytes := by simpa [encodeItems] using encoded
      rfl
  | cons value values ih =>
      simp only [encodeItems, Option.bind_eq_bind, Option.pure_def, Option.bind_eq_some_iff,
        Option.some.injEq] at encoded
      obtain ⟨front, wrote_value, back, wrote_values, rfl⟩ := encoded
      rw [List.length_append, sized.length wrote_value, ih wrote_values, List.map_cons,
        List.sum_cons]

theorem Sized.items_total {item : ByteCodec α} {size : α → Nat} (sized : item.Sized size)
    (values : List α) (small : (values.map size).sum < 2 ^ 64) :
    ∃ bytes, encodeItems item values = some bytes := by
  induction values with
  | nil => exact ⟨[], rfl⟩
  | cons value values ih =>
      rw [List.map_cons, List.sum_cons] at small
      obtain ⟨front, wrote_value⟩ := sized.total value (by omega)
      obtain ⟨back, wrote_values⟩ := ih (by omega)
      exact ⟨front ++ back, by simp [encodeItems, wrote_value, wrote_values]⟩

/-- The size of a sequence: its length and its items. -/
def listSize (size : α → Nat) (values : List α) : Nat :=
  varintSize values.length + (values.map size).sum

/-- A sequence of items that take up space is sized. -/
theorem Sized.list {item : ByteCodec α} {size : α → Nat} (sized : item.Sized size)
    (positive : ∀ value, 0 < size value) : (ByteCodec.list item).Sized (listSize size) where
  length := by
    intro values bytes encoded
    simp only [ByteCodec.list, Option.bind_eq_bind, Option.pure_def, Option.bind_eq_some_iff,
      Option.some.injEq] at encoded
    obtain ⟨front, wrote_length, back, wrote_items, rfl⟩ := encoded
    rw [List.length_append, length_varint wrote_length, sized.items wrote_items, listSize]
  total := by
    intro values small
    rw [listSize] at small
    have many : values.length ≤ (values.map size).sum := by
      clear small
      induction values with
      | nil => simp
      | cons value values ih =>
          have := positive value
          simp only [List.length_cons, List.map_cons, List.sum_cons]
          omega
    obtain ⟨front, wrote_length⟩ := @encode_varint 8 values.length (by decide) (by omega)
    obtain ⟨back, wrote_items⟩ := sized.items_total values (by omega)
    exact ⟨front ++ back, by simp [ByteCodec.list, wrote_length, wrote_items]⟩

/-- The size of an optional value. -/
def optionSize (size : α → Nat) : Option α → Nat
  | none => 1
  | some value => 1 + size value

theorem Sized.option {item : ByteCodec α} {size : α → Nat} (sized : item.Sized size) :
    (ByteCodec.option item).Sized (optionSize size) where
  length := by
    intro value bytes encoded
    cases value with
    | none =>
        obtain rfl : [0] = bytes := by simpa [ByteCodec.option] using encoded
        rfl
    | some value =>
        obtain ⟨body, written, rfl⟩ :
            ∃ body, item.encode value = some body ∧ 1 :: body = bytes := by
          simpa [ByteCodec.option, Option.bind_eq_some_iff] using encoded
        rw [List.length_cons, sized.length written, optionSize, Nat.add_comm]
  total := by
    intro value small
    cases value with
    | none => exact ⟨[0], rfl⟩
    | some value =>
        rw [optionSize] at small
        obtain ⟨body, written⟩ := sized.total value (by omega)
        exact ⟨1 :: body, by simp [ByteCodec.option, written]⟩

/-! ## Reading from the front -/

/-- Decoding does not look behind the bytes it takes. -/
def Streams (codec : ByteCodec α) : Prop :=
  ∀ bytes value rest more, codec.decode bytes = some (value, rest) →
    codec.decode (bytes ++ more) = some (value, rest ++ more)

theorem takeExact_more {width : Nat} {bytes front rest : Bytes}
    (taken : takeExact width bytes = some (front, rest)) (more : Bytes) :
    takeExact width (bytes ++ more) = some (front, rest ++ more) := by
  obtain ⟨width_eq, rfl⟩ := takeExact_eq_some.mp taken
  rw [List.append_assoc]
  exact takeExact_append width_eq _

theorem streams_exact (width : Nat) : (ByteCodec.exact width).Streams := by
  intro bytes value rest more decoded
  simp only [ByteCodec.exact, Option.bind_eq_bind, Option.bind_eq_some_iff] at decoded ⊢
  obtain ⟨⟨front, back⟩, taken, decoded⟩ := decoded
  refine ⟨(front, back ++ more), takeExact_more taken more, ?_⟩
  obtain ⟨vector, found, rfl, rfl⟩ : ∃ vector, vectorOfBytes width front = some vector ∧
      vector = value ∧ back = rest := by
    simpa [Option.bind_eq_some_iff] using decoded
  simp [found]

theorem streams_byte : byte.Streams := by
  intro bytes value rest more decoded
  cases bytes with
  | nil => cases decoded
  | cons first back =>
      obtain ⟨rfl, rfl⟩ : first = value ∧ back = rest := by simpa [byte] using decoded
      rfl

theorem streams_varint (limit : Nat) : (varint limit).Streams := by
  intro bytes value rest more decoded
  cases bytes with
  | nil => cases decoded
  | cons first back =>
      simp only [varint, List.cons_append] at decoded ⊢
      split at decoded
      · rename_i small
        obtain ⟨rfl, rfl⟩ : first.toNat = value ∧ back = rest := by simpa using decoded
        rw [if_pos small]
      · rename_i large
        obtain ⟨width, announced, decoded⟩ := Option.bind_eq_some_iff.mp decoded
        rw [if_neg large]
        refine Option.bind_eq_some_iff.mpr ⟨width, announced, ?_⟩
        split at decoded
        · rename_i allowed
          obtain ⟨⟨front, left⟩, taken, decoded⟩ := Option.bind_eq_some_iff.mp decoded
          obtain ⟨rfl, rfl⟩ : leValue front = value ∧ left = rest := by simpa using decoded
          simp [allowed, takeExact_more taken more]
        · cases decoded

theorem Streams.via {codec : ByteCodec α} (streams : codec.Streams) (into : β → Option α)
    (back : α → Option β)
    (inverse : ∀ value image, into value = some image → back image = some value) :
    (codec.via into back inverse).Streams := by
  intro bytes value rest more decoded
  obtain ⟨⟨image, left⟩, read, decoded⟩ := Option.bind_eq_some_iff.mp decoded
  refine Option.bind_eq_some_iff.mpr ⟨(image, left ++ more), streams _ _ _ more read, ?_⟩
  obtain ⟨found, rfl⟩ : back image = some value ∧ left = rest := by
    simpa [Option.bind_eq_some_iff] using decoded
  simp [found]

theorem Streams.pair {first : ByteCodec α} {second : ByteCodec β} (streams_first : first.Streams)
    (streams_second : second.Streams) : (first.pair second).Streams := by
  rintro bytes ⟨left, right⟩ rest more decoded
  simp only [ByteCodec.pair, Option.bind_eq_bind, Option.pure_def, Option.bind_eq_some_iff,
    Option.some.injEq, Prod.mk.injEq, Prod.exists] at decoded ⊢
  obtain ⟨value, middle, read_first, other, back, read_second, ⟨rfl, rfl⟩, rfl⟩ := decoded
  exact ⟨value, middle ++ more, streams_first _ _ _ more read_first, other, back ++ more,
    streams_second _ _ _ more read_second, ⟨rfl, rfl⟩, rfl⟩

theorem Streams.items {item : ByteCodec α} (streams : item.Streams) {count : Nat}
    {bytes rest : Bytes} {values : List α}
    (decoded : decodeItems item count bytes = some (values, rest)) (more : Bytes) :
    decodeItems item count (bytes ++ more) = some (values, rest ++ more) := by
  induction count generalizing bytes values with
  | zero =>
      obtain ⟨rfl, rfl⟩ : [] = values ∧ bytes = rest := by simpa [decodeItems] using decoded
      rfl
  | succ count ih =>
      simp only [decodeItems, Option.bind_eq_bind, Option.pure_def, Option.bind_eq_some_iff,
        Option.some.injEq, Prod.mk.injEq, Prod.exists] at decoded ⊢
      obtain ⟨value, middle, read, others, back, read_others, rfl, rfl⟩ := decoded
      exact ⟨value, middle ++ more, streams _ _ _ more read, others, back ++ more,
        ih read_others, rfl, rfl⟩

theorem Streams.list {item : ByteCodec α} (streams : item.Streams) :
    (ByteCodec.list item).Streams := by
  intro bytes values rest more decoded
  obtain ⟨⟨count, left⟩, read, decoded⟩ := Option.bind_eq_some_iff.mp decoded
  exact Option.bind_eq_some_iff.mpr ⟨(count, left ++ more), streams_varint 8 _ _ _ more read,
    streams.items decoded more⟩

theorem streams_text : text.Streams := streams_byte.list.via _ _ _

theorem streams_variants {index : α → Nat} {variant : Nat → Option (ByteCodec α)}
    (streams : ∀ number codec, variant number = some codec → codec.Streams) :
    (variants index variant).Streams := by
  intro bytes value rest more decoded
  obtain ⟨⟨number, left⟩, read, decoded⟩ := Option.bind_eq_some_iff.mp decoded
  obtain ⟨codec, found, decoded⟩ := Option.bind_eq_some_iff.mp decoded
  exact Option.bind_eq_some_iff.mpr ⟨(number, left ++ more), streams_varint 4 _ _ _ more read,
    Option.bind_eq_some_iff.mpr ⟨codec, found, streams number codec found _ _ _ more decoded⟩⟩

end ByteCodec

/-! ## Whole buffers -/

/-- Serialisation to a fresh buffer, and deserialisation from the front of a buffer together with
the number of bytes read. -/
structure Bincode (α : Type) where
  encodeToVec : α → Option Bytes
  decodeFromSlice : Bytes → Option (α × Nat)

namespace Bincode

variable {α : Type}

/-- Decoding an encoding returns the value and the length of the encoding. -/
def RoundTrip (bincode : Bincode α) : Prop :=
  ∀ value payload, bincode.encodeToVec value = some payload →
    bincode.decodeFromSlice payload = some (value, payload.length)

/-- Every value of a kind is encoded, and decoding the encoding returns it. -/
def Undoes (bincode : Bincode α) (kind : α → Prop) : Prop :=
  ∀ value, kind value → ∃ payload, bincode.encodeToVec value = some payload ∧
    bincode.decodeFromSlice payload = some (value, payload.length)

/-- Decoding does not look behind the bytes it reads. -/
def Stable (bincode : Bincode α) : Prop :=
  ∀ bytes value bytesRead more, bincode.decodeFromSlice bytes = some (value, bytesRead) →
    bincode.decodeFromSlice (bytes ++ more) = some (value, bytesRead)

/-- No value takes up exactly a part of an encoding. -/
theorem Stable.not_cut {bincode : Bincode α} (stable : bincode.Stable)
    (roundTrip : bincode.RoundTrip) {value other : α} {payload : Bytes} {cut : Nat}
    (encoded : bincode.encodeToVec value = some payload) (short : cut < payload.length) :
    bincode.decodeFromSlice (payload.take cut) ≠ some (other, cut) := by
  intro decoded
  have whole := stable _ _ _ (payload.drop cut) decoded
  rw [List.take_append_drop, roundTrip _ _ encoded] at whole
  have same : payload.length = cut := by simpa using congrArg (Option.map Prod.snd) whole
  omega

/-- The encoding of an enumeration starts with the index of the variant as one byte. -/
def StartsWithVariant (bincode : Bincode α) (variantIndex : α → UInt8) : Prop :=
  ∀ value payload, bincode.encodeToVec value = some payload →
    payload.head? = some (variantIndex value)

/-- The serialisation a self-delimiting codec gives. -/
def ofCodec (codec : ByteCodec α) : Bincode α where
  encodeToVec := codec.encode
  decodeFromSlice payload := do
    let (value, rest) ← codec.decode payload
    return (value, payload.length - rest.length)

theorem ofCodec_roundTrip (codec : ByteCodec α) : (ofCodec codec).RoundTrip := by
  intro value payload encoded
  have decoded := codec.decode_encode encoded []
  rw [List.append_nil] at decoded
  simp [ofCodec, decoded]

theorem ofCodec_stable {codec : ByteCodec α} (streams : codec.Streams) :
    (ofCodec codec).Stable := by
  intro bytes value bytesRead more decoded
  obtain ⟨⟨found, rest⟩, read, decoded⟩ := Option.bind_eq_some_iff.mp decoded
  obtain ⟨rfl, rfl⟩ : found = value ∧ bytes.length - rest.length = bytesRead := by
    simpa using decoded
  simp only [ofCodec, streams _ _ _ more read, Option.bind_eq_bind, Option.bind_some,
    Option.pure_def, List.length_append, Nat.add_sub_add_right]

theorem ofCodec_undoes {codec : ByteCodec α} {size : α → Nat} (sized : codec.Sized size) :
    (ofCodec codec).Undoes fun value => size value < 2 ^ 64 := by
  intro value small
  obtain ⟨payload, encoded⟩ := sized.total value small
  exact ⟨payload, encoded, ofCodec_roundTrip codec value payload encoded⟩

end Bincode

end Etle
