import WincredLibsecret.TextCodec

/-! The part of CBOR that serialised records use: numbers, texts, byte strings, arrays and maps, with
the shortest heads and definite lengths. Every encoder has a reader, and reading what was written
gives the value back and leaves what follows. A head holds lengths below 2^64, so the law is stated
for encodings that are shorter than that. -/

namespace Cbor

open TextCodec

abbrev Bytes := List UInt8

/-- The `width` lowest bytes of a number, most significant first. -/
def beBytes : Nat → Nat → Bytes
  | 0, _ => []
  | width + 1, n => beBytes width (n / 256) ++ [UInt8.ofNat (n % 256)]

def beValue (bytes : Bytes) : Nat := bytes.foldl (fun value byte => value * 256 + byte.toNat) 0

@[simp] theorem length_beBytes (width n : Nat) : (beBytes width n).length = width := by
  induction width generalizing n with
  | zero => rfl
  | succ width ih => simp [beBytes, ih]

theorem beValue_beBytes (width n : Nat) : beValue (beBytes width n) = n % 256 ^ width := by
  induction width generalizing n with
  | zero => simp [beBytes, beValue, Nat.mod_one]
  | succ width ih =>
      have hlast : beValue (beBytes width (n / 256) ++ [UInt8.ofNat (n % 256)]) =
          beValue (beBytes width (n / 256)) * 256 + n % 256 := by
        simp [beValue, List.foldl_append]
      rw [beBytes, hlast, ih, Nat.pow_succ, Nat.mul_comm (256 ^ width) 256, Nat.mod_mul]
      omega

theorem beBytes_beValue (bytes : Bytes) : beBytes bytes.length (beValue bytes) = bytes := by
  induction bytes using List.reverseRecOn with
  | nil => rfl
  | append_singleton bytes last ih =>
      have hvalue : beValue (bytes ++ [last]) = beValue bytes * 256 + last.toNat := by
        simp [beValue, List.foldl_append]
      have hlast := last.toNat_lt
      have hdiv : (beValue bytes * 256 + last.toNat) / 256 = beValue bytes := by omega
      have hmod : (beValue bytes * 256 + last.toNat) % 256 = last.toNat := by omega
      rw [List.length_append, List.length_singleton, beBytes, hvalue, hdiv, hmod, ih, UInt8.ofNat_toNat]

/-- The code of an argument in the low bits of the first byte, and the width of what follows it. -/
def headCode (n : Nat) : Nat :=
  if n < 24 then n else if n < 2 ^ 8 then 24 else if n < 2 ^ 16 then 25 else if n < 2 ^ 32 then 26 else 27

def argumentWidth (n : Nat) : Nat :=
  if n < 24 then 0 else if n < 2 ^ 8 then 1 else if n < 2 ^ 16 then 2 else if n < 2 ^ 32 then 4 else 8

/-- The first bytes of an item: its major type and its argument. -/
def head (major n : Nat) : Bytes := UInt8.ofNat (major * 32 + headCode n) :: beBytes (argumentWidth n) n

@[simp] theorem length_head (major n : Nat) : (head major n).length = argumentWidth n + 1 := by
  simp [head]

theorem length_head_le (major n : Nat) : (head major n).length ≤ 9 := by
  rw [length_head, argumentWidth]
  split_ifs <;> omega

/-! ### Encoders -/

def uint (n : Nat) : Bytes := head 0 n

def byteString (bytes : Bytes) : Bytes := head 2 bytes.length ++ bytes

def text (value : String) : Bytes := head 3 value.utf8ByteSize ++ utf8Bytes value

def bool (value : Bool) : Bytes := [if value then 0xf5 else 0xf4]

def null : Bytes := [0xf6]

def array (items : List Bytes) : Bytes := head 4 items.length ++ items.flatten

def map (entries : List (Bytes × Bytes)) : Bytes :=
  head 5 entries.length ++ entries.flatMap fun entry => entry.1 ++ entry.2

/-- A structure is a map from the names of its fields. -/
def record (fields : List (String × Bytes)) : Bytes := map (fields.map fun field => (text field.1, field.2))

def option {α : Type} (encode : α → Bytes) : Option α → Bytes
  | none => null
  | some value => encode value

@[simp] theorem length_text (value : String) :
    (text value).length = argumentWidth value.utf8ByteSize + 1 + value.utf8ByteSize := by
  simp [text]

@[simp] theorem length_byteString (bytes : Bytes) :
    (byteString bytes).length = argumentWidth bytes.length + 1 + bytes.length := by
  simp [byteString]

@[simp] theorem length_uint (n : Nat) : (uint n).length = argumentWidth n + 1 := length_head 0 n

@[simp] theorem length_bool (value : Bool) : (bool value).length = 1 := rfl

theorem argumentWidth_le (n : Nat) : argumentWidth n ≤ 8 := by
  rw [argumentWidth]
  split_ifs <;> omega

theorem length_uint_le (n : Nat) : (uint n).length ≤ 9 := length_head_le 0 n

theorem length_map (entries : List (Bytes × Bytes)) : (map entries).length =
    argumentWidth entries.length + 1 + (entries.map fun entry => entry.1.length + entry.2.length).sum := by
  simp [map, List.length_flatMap]

theorem length_record (fields : List (String × Bytes)) : (record fields).length =
    argumentWidth fields.length + 1 + (fields.map fun field => (text field.1).length + field.2.length).sum := by
  rw [record, length_map, List.length_map, List.map_map]
  rfl

theorem sum_map_le {α : Type} {values : List α} {size : α → Nat} {maximum : Nat}
    (h : ∀ value ∈ values, size value ≤ maximum) : (values.map size).sum ≤ values.length * maximum := by
  induction values with
  | nil => exact Nat.zero_le _
  | cons value rest ih =>
      obtain ⟨hvalue, hrest⟩ := List.forall_mem_cons.mp h
      have hsum := ih hrest
      rw [List.map_cons, List.sum_cons, List.length_cons, Nat.succ_mul]
      omega

variable {fields : List (String × Bytes)}

/-- A structure takes little more than the values of its fields if their names are short. -/
theorem length_record_le (h : fields.all fun field => field.1.utf8ByteSize < 24) :
    (record fields).length ≤ 9 + (fields.map fun field => 24 + field.2.length).sum := by
  have hfields : (fields.map fun field => (text field.1).length + field.2.length).sum ≤
      (fields.map fun field => 24 + field.2.length).sum := by
    refine List.sum_le_sum fun field hfield => ?_
    have hname : field.1.utf8ByteSize < 24 := of_decide_eq_true (List.all_eq_true.mp h field hfield)
    rw [length_text, argumentWidth, if_pos hname]
    omega
  have hcount := argumentWidth_le fields.length
  rw [length_record]
  omega

theorem length_text_le {value : String} {maximum : Nat} (h : value.utf8ByteSize ≤ maximum) :
    (text value).length ≤ 9 + maximum := by
  have hwidth := argumentWidth_le value.utf8ByteSize
  rw [length_text]
  omega

theorem length_byteString_le {bytes : Bytes} {maximum : Nat} (h : bytes.length ≤ maximum) :
    (byteString bytes).length ≤ 9 + maximum := by
  have hwidth := argumentWidth_le bytes.length
  rw [length_byteString]
  omega

theorem length_array_le {items : List Bytes} {maximum : Nat} (h : ∀ item ∈ items, item.length ≤ maximum) :
    (array items).length ≤ 9 + items.length * maximum := by
  have hwidth := argumentWidth_le items.length
  have hsum := sum_map_le h
  rw [array, List.length_append, length_head, List.length_flatten]
  omega

theorem length_array (items : List Bytes) :
    (array items).length = argumentWidth items.length + 1 + (items.map List.length).sum := by
  simp [array]

/-! ### Decoders -/

abbrev Decoder (α : Type) := StateT Bytes Option α

/-- The decoder reads the encoding as the value and leaves what follows. -/
def Decodes {α : Type} (encoded : Bytes) (decoder : Decoder α) (value : α) : Prop :=
  encoded.length < 2 ^ 64 → ∀ rest, decoder.run (encoded ++ rest) = some (value, rest)

def takeBytes (n : Nat) : Decoder Bytes := fun input =>
  if n ≤ input.length then some (input.take n, input.drop n) else none

def ofOption {α : Type} (value : Option α) : Decoder α := fun input => value.map fun found => (found, input)

/-- Reads a head of the given major type and returns its argument. -/
def readHead (major : Nat) : Decoder Nat := fun input =>
  match input with
  | [] => none
  | first :: input =>
      if first.toNat / 32 ≠ major then none
      else
        let code := first.toNat % 32
        let wide := fun width => (takeBytes width).run input |>.map fun taken => (beValue taken.1, taken.2)
        if code < 24 then some (code, input)
        else if code = 24 then wide 1
        else if code = 25 then wide 2
        else if code = 26 then wide 4
        else if code = 27 then wide 8
        else none

def readUint : Decoder Nat := readHead 0

def readByteString : Decoder Bytes := do
  let length ← readHead 2
  takeBytes length

def readText : Decoder String := do
  let length ← readHead 3
  let bytes ← takeBytes length
  ofOption (textOfBytes bytes)

/-- Reads the name of a field. -/
def expectText (expected : String) : Decoder Unit := do
  let found ← readText
  ofOption (if found = expected then some () else none)

/-- Reads the head of a structure with the given number of fields. -/
def expectRecord (fields : Nat) : Decoder Unit := do
  let count ← readHead 5
  ofOption (if count = fields then some () else none)

def readMany {α : Type} (decoder : Decoder α) : Nat → Decoder (List α)
  | 0 => pure []
  | n + 1 => do
      let first ← decoder
      let others ← readMany decoder n
      pure (first :: others)

def readBool : Decoder Bool := fun input =>
  match input with
  | [] => none
  | first :: input => if first = 0xf5 then some (true, input) else if first = 0xf4 then some (false, input) else none

/-- Reads a value that may be absent. -/
def readOption {α : Type} (decoder : Decoder α) : Decoder (Option α) := fun input =>
  if input.head? = some 0xf6 then some (none, input.tail)
  else (decoder.run input).map fun found => (some found.1, found.2)

def readArray {α : Type} (decoder : Decoder α) : Decoder (List α) := do
  let count ← readHead 4
  readMany decoder count

section Laws

variable {α β : Type}

theorem takeBytes_append (bytes rest : Bytes) : (takeBytes bytes.length).run (bytes ++ rest) = some (bytes, rest) := by
  simp [takeBytes, StateT.run]

variable {decoder : Decoder α} {value : α} {encode : α → Bytes}

theorem Decodes.bind {first second : Bytes} {next : α → Decoder β} {result : β} (hfirst : Decodes first decoder value)
    (hsecond : Decodes second (next value) result) : Decodes (first ++ second) (decoder >>= next) result := by
  intro hlength rest
  rw [List.length_append] at hlength
  rw [StateT.run_bind, List.append_assoc, hfirst (by omega)]
  exact hsecond (by omega) rest

theorem Decodes.pure (value : α) : Decodes [] (Pure.pure value) value := fun _ _ => rfl

theorem Decodes.ofOption {found : Option α} (h : found = some value) : Decodes [] (Cbor.ofOption found) value := by
  intro _ rest
  simp [Cbor.ofOption, StateT.run, h]

/-- A decoder that converts what it has read. -/
theorem Decodes.convert {encoded : Bytes} {conversion : α → Option β} {result : β} (h : Decodes encoded decoder value)
    (hresult : conversion value = some result) :
    Decodes encoded (decoder >>= fun found => Cbor.ofOption (conversion found)) result := by
  have hboth : Decodes (encoded ++ []) (decoder >>= fun found => Cbor.ofOption (conversion found)) result :=
    h.bind (Decodes.ofOption hresult)
  rwa [List.append_nil] at hboth

theorem Decodes.map {encoded : Bytes} (h : Decodes encoded decoder value) (f : α → β) :
    Decodes encoded (decoder >>= fun found => Pure.pure (f found)) (f value) := by
  have hboth : Decodes (encoded ++ []) (decoder >>= fun found => Pure.pure (f found)) (f value) :=
    h.bind (Decodes.pure (f value))
  rwa [List.append_nil] at hboth

theorem Decodes.takeBytes (bytes : Bytes) : Decodes bytes (Cbor.takeBytes bytes.length) bytes :=
  fun _ rest => takeBytes_append bytes rest

theorem readHead_head {major n : Nat} (hmajor : major < 8) (hn : n < 2 ^ 64) (rest : Bytes) :
    (readHead major).run (head major n ++ rest) = some (n, rest) := by
  have hcode : headCode n < 32 := by
    unfold headCode
    split_ifs <;> omega
  have hfirst : (UInt8.ofNat (major * 32 + headCode n)).toNat = major * 32 + headCode n := by
    rw [UInt8.toNat_ofNat']
    omega
  have hdiv : (major * 32 + headCode n) / 32 = major := by omega
  have hmod : (major * 32 + headCode n) % 32 = headCode n := by omega
  have htake : ∀ width, argumentWidth n = width → n < 256 ^ width →
      ((takeBytes width).run (beBytes (argumentWidth n) n ++ rest)).map (fun taken => (beValue taken.1, taken.2)) =
        some (n, rest) := by
    rintro width rfl hwidth
    have happend := takeBytes_append (beBytes (argumentWidth n) n) rest
    rw [length_beBytes] at happend
    rw [happend, Option.map_some, beValue_beBytes, Nat.mod_eq_of_lt hwidth]
  simp only [readHead, head, StateT.run, List.cons_append, hfirst, hdiv, hmod, ne_eq, not_true_eq_false, if_false]
  simp only [StateT.run] at htake
  by_cases h24 : n < 24
  · simp [headCode, argumentWidth, h24, beBytes]
  by_cases h8 : n < 2 ^ 8
  · simp only [headCode, if_neg h24, if_pos h8]
    exact htake 1 (by simp only [argumentWidth, if_neg h24, if_pos h8]) (by omega)
  by_cases h16 : n < 2 ^ 16
  · simp only [headCode, if_neg h24, if_neg h8, if_pos h16]
    exact htake 2 (by simp only [argumentWidth, if_neg h24, if_neg h8, if_pos h16]) (by omega)
  by_cases h32 : n < 2 ^ 32
  · simp only [headCode, if_neg h24, if_neg h8, if_neg h16, if_pos h32]
    exact htake 4 (by simp only [argumentWidth, if_neg h24, if_neg h8, if_neg h16, if_pos h32]) (by omega)
  · simp only [headCode, if_neg h24, if_neg h8, if_neg h16, if_neg h32]
    exact htake 8 (by simp only [argumentWidth, if_neg h24, if_neg h8, if_neg h16, if_neg h32]) (by omega)

theorem Decodes.uint {n : Nat} (hn : n < 2 ^ 64) : Decodes (Cbor.uint n) readUint n :=
  fun _ rest => readHead_head (by omega) hn rest

theorem Decodes.byteString (bytes : Bytes) : Decodes (Cbor.byteString bytes) readByteString bytes := by
  intro hlength rest
  rw [length_byteString] at hlength
  have hhead : Decodes (head 2 bytes.length) (readHead 2) bytes.length :=
    fun _ rest => readHead_head (by omega) (by omega) rest
  exact hhead.bind (Decodes.takeBytes bytes) (by simpa [Cbor.byteString] using hlength) rest

theorem Decodes.text (value : String) : Decodes (Cbor.text value) readText value := by
  intro hlength rest
  rw [length_text] at hlength
  have hhead : Decodes (head 3 value.utf8ByteSize) (readHead 3) value.utf8ByteSize :=
    fun _ rest => readHead_head (by omega) (by omega) rest
  exact hhead.bind ((Decodes.takeBytes (utf8Bytes value)).convert (textOfBytes_eq_some.mpr rfl))
    (by simpa using hlength) rest

/-- A decoder that checks what it has read. -/
theorem Decodes.guard {encoded : Bytes} [DecidableEq α] (h : Decodes encoded decoder value) :
    Decodes encoded (decoder >>= fun found => Cbor.ofOption (if found = value then some () else none)) () :=
  h.convert (if_pos rfl)

theorem Decodes.expectText (expected : String) : Decodes (Cbor.text expected) (Cbor.expectText expected) () :=
  (Decodes.text expected).guard

theorem Decodes.expectRecord {fields : Nat} (hfields : fields < 2 ^ 64) :
    Decodes (head 5 fields) (Cbor.expectRecord fields) () :=
  Decodes.guard fun _ rest => readHead_head (by omega) hfields rest

theorem Decodes.many (h : ∀ value, Decodes (encode value) decoder value) (values : List α) :
    Decodes (values.flatMap encode) (readMany decoder values.length) values := by
  induction values with
  | nil => exact Decodes.pure []
  | cons value rest ih =>
      exact (h value).bind (ih.map fun others => value :: others)

theorem Decodes.bool (value : Bool) : Decodes (Cbor.bool value) readBool value := by
  intro _ rest
  cases value <;> rfl

/-- No head is the mark of an absent value. -/
theorem head?_head_ne_null {major n : Nat} (hmajor : major < 7) (rest : Bytes) :
    (head major n ++ rest).head? ≠ some 0xf6 := by
  have hcode : headCode n < 32 := by
    unfold headCode
    split_ifs <;> omega
  intro hnull
  have hbyte : UInt8.ofNat (major * 32 + headCode n) = 0xf6 := Option.some.inj hnull
  have hvalue := congrArg UInt8.toNat hbyte
  rw [UInt8.toNat_ofNat', Nat.mod_eq_of_lt (by omega)] at hvalue
  have hnumber : (0xf6 : UInt8).toNat = 246 := rfl
  omega

theorem Decodes.option {value : Option α} (h : ∀ found, value = some found → Decodes (encode found) decoder found)
    (hhead : ∀ found rest, (encode found ++ rest).head? ≠ some 0xf6) :
    Decodes (Cbor.option encode value) (readOption decoder) value := by
  intro hlength rest
  cases value with
  | none => rfl
  | some found =>
      simp only [Cbor.option] at hlength ⊢
      have hread := h found rfl hlength rest
      simp only [readOption, StateT.run] at hread ⊢
      rw [if_neg (hhead found rest), hread]
      rfl

/-- A list has at most as many entries as the bytes it is written with. -/
theorem length_le_flatMap (hpos : ∀ value, 1 ≤ (encode value).length) (values : List α) :
    values.length ≤ (values.flatMap encode).length := by
  induction values with
  | nil => exact le_refl 0
  | cons value values ih =>
      have hvalue := hpos value
      simp only [List.flatMap_cons, List.length_append, List.length_cons]
      omega

theorem Decodes.array (h : ∀ value, Decodes (encode value) decoder value) (hpos : ∀ value, 1 ≤ (encode value).length)
    (values : List α) : Decodes (Cbor.array (values.map encode)) (readArray decoder) values := by
  intro hlength rest
  rw [Cbor.array, List.length_map, ← List.flatMap_def] at hlength ⊢
  have hcount := length_le_flatMap hpos values
  have hhead : Decodes (head 4 values.length) (readHead 4) values.length := by
    rw [List.length_append] at hlength
    exact fun _ rest => readHead_head (by omega) (by omega) rest
  exact hhead.bind (Decodes.many h values) hlength rest

end Laws

/-- The fields of a structure, one after the other. -/
def fieldBytes (fields : List (String × Bytes)) : Bytes := fields.flatMap fun field => text field.1 ++ field.2

theorem record_eq (fields : List (String × Bytes)) :
    record fields = head 5 fields.length ++ fieldBytes fields := by
  simp [record, map, fieldBytes, List.flatMap_map]

def readField {α : Type} (name : String) (decoder : Decoder α) : Decoder α := do
  expectText name
  decoder

theorem Decodes.field {α : Type} {name : String} {encoded : Bytes} {decoder : Decoder α} {value : α}
    (h : Decodes encoded decoder value) : Decodes (Cbor.text name ++ encoded) (readField name decoder) value :=
  (Decodes.expectText name).bind h

/-- One more field in front of those already read. -/
theorem Decodes.fields_cons {α β : Type} {name : String} {encoded : Bytes} {others : List (String × Bytes)}
    {decoder : Decoder α} {next : α → Decoder β} {value : α} {result : β} (h : Decodes encoded decoder value)
    (hnext : Decodes (fieldBytes others) (next value) result) :
    Decodes (fieldBytes ((name, encoded) :: others)) (readField name decoder >>= next) result := by
  have hfirst : Decodes (Cbor.text name ++ encoded) (readField name decoder) value := Decodes.field h
  exact hfirst.bind hnext

theorem Decodes.fields_nil {α : Type} (value : α) : Decodes (fieldBytes []) (Pure.pure value) value :=
  Decodes.pure value

theorem Decodes.record {α : Type} {decoder : Decoder α} {value : α} (hcount : fields.length < 2 ^ 64)
    (h : Decodes (fieldBytes fields) decoder value) :
    Decodes (Cbor.record fields) (do
      Cbor.expectRecord fields.length
      decoder) value := by
  rw [record_eq]
  exact (Decodes.expectRecord hcount).bind h

/-- Reads a structure whose first field names its variant. For every name the table has the number of the
other fields and their reader. -/
def readVariant {α : Type} (tag : String) (table : String → Option (Nat × Decoder α)) : Decoder α := do
  let count ← readHead 5
  let name ← readField tag readText
  let variant ← ofOption (table name)
  ofOption (if count = variant.1 + 1 then some () else none)
  variant.2

theorem Decodes.variant {α : Type} {tag name : String} {table : String → Option (Nat × Decoder α)} {decoder : Decoder α}
    {value : α} (htable : table name = some (fields.length, decoder)) (hcount : fields.length + 1 < 2 ^ 64)
    (h : Decodes (fieldBytes fields) decoder value) :
    Decodes (Cbor.record ((tag, Cbor.text name) :: fields)) (readVariant tag table) value := by
  rw [record_eq]
  have hhead : Decodes (head 5 (fields.length + 1)) (readHead 5) (fields.length + 1) :=
    fun _ rest => readHead_head (by omega) hcount rest
  have hvariant : Decodes ([] ++ ([] ++ fieldBytes fields)) (do
      let variant ← Cbor.ofOption (table name)
      Cbor.ofOption (if fields.length + 1 = variant.1 + 1 then some () else none)
      variant.2) value := by
    exact (Decodes.ofOption htable).bind ((Decodes.ofOption (if_pos rfl)).bind h)
  exact hhead.bind ((Decodes.text name).fields_cons hvariant)

end Cbor
