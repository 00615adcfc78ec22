import SableDb.Commands.GenericCommands

/-!
# RESP2 replies: the frames `RespBuilderV2` appends, and how a client reads them

`RespBuilderV2` is not in the repository, and the spec leaves the byte layout of the RESP codec
out of its scope.  We model a response buffer as the RESP2 frames the builder appends: an array
header `*<len>`, a bulk string or an integer.  A client reads a reply off a buffer by taking the
`len` replies after a header as that array's items (`readValue`).

A reply's `frames` are the only shape the builder calls of a well-formed reply produce: the
reader gives the reply back whatever follows it (`readValue_frames`), and it reads nothing that
is not such a shape (`readValue_sound`).  So a buffer is read as one reply exactly when it is
that reply's frames (`readReply_eq_some_iff`), and the self-descriptions of the command registry
are checked against this.
-/

namespace SableDb

/-- Modelled from the spec: one RESP2 frame of a response buffer. -/
inductive RespFrame
  | arrayLen (len : Nat)
  | bulkString (b : Bytes)
  | number (n : Int)
  deriving DecidableEq, Repr

/-- A response buffer, frame by frame. -/
abbrev RespBuffer := List RespFrame

/-- A RESP2 reply as a client reads it. -/
inductive RespValue
  | bulkString (b : Bytes)
  | number (n : Int)
  | array (items : List RespValue)
  deriving Repr

namespace RespBuilderV2

/-- Modelled from the spec: `RespBuilderV2::add_array_len`. -/
def addArrayLen (buffer : RespBuffer) (len : Nat) : RespBuffer := buffer ++ [.arrayLen len]

/-- Modelled from the spec: `RespBuilderV2::add_empty_array`. -/
def addEmptyArray (buffer : RespBuffer) : RespBuffer := addArrayLen buffer 0

/-- Modelled from the spec: `RespBuilderV2::add_bulk_string`. -/
def addBulkString (buffer : RespBuffer) (b : Bytes) : RespBuffer := buffer ++ [.bulkString b]

/-- Modelled from the spec: `RespBuilderV2::add_bulk_string_u8_arr`. -/
def addBulkStringU8Arr (buffer : RespBuffer) (b : Bytes) : RespBuffer := addBulkString buffer b

/-- Modelled from the spec: `RespBuilderV2::add_number(buffer, n, false)`, an integer reply. -/
def addNumber (buffer : RespBuffer) (n : Int) : RespBuffer := buffer ++ [.number n]

/-- Modelled from the spec: `RespBuilderV2::add_strings`, an array of bulk strings. -/
def addStrings (buffer : RespBuffer) (strings : List String) : RespBuffer :=
  addArrayLen buffer strings.length ++ strings.map fun s => .bulkString (utf8Bytes s)

/-- Modelled from the spec: `RespBuilderV2::add_resp_string` appends a reply that is already
encoded. -/
def addRespString (buffer : RespBuffer) (resp : RespBuffer) : RespBuffer := buffer ++ resp

end RespBuilderV2

namespace RespValue

mutual
/-- The frames of a reply: an array is its header followed by its items' frames. -/
def frames : RespValue → RespBuffer
  | .bulkString b => [.bulkString b]
  | .number n => [.number n]
  | .array items => .arrayLen items.length :: framesList items

/-- The frames of a list of replies, one after another. -/
def framesList : List RespValue → RespBuffer
  | [] => []
  | v :: vs => v.frames ++ framesList vs
end

mutual
/-- How deeply a reply nests arrays. -/
def depth : RespValue → Nat
  | .array items => depthList items + 1
  | _ => 1

/-- The deepest nesting in a list of replies. -/
def depthList : List RespValue → Nat
  | [] => 0
  | v :: vs => max v.depth (depthList vs)
end

@[simp] theorem framesList_map_bulkString {α : Type} (f : α → Bytes) (l : List α) :
    framesList (l.map fun a => .bulkString (f a)) = l.map fun a => .bulkString (f a) := by
  induction l with
  | nil => rfl
  | cons a l ih => rw [List.map_cons, framesList, ih]; rfl

theorem framesList_append (vs ws : List RespValue) :
    framesList (vs ++ ws) = framesList vs ++ framesList ws := by
  induction vs with
  | nil => rfl
  | cons v vs ih => rw [List.cons_append, framesList, framesList, ih, List.append_assoc]

mutual
theorem depth_le_length : ∀ v : RespValue, v.depth ≤ v.frames.length
  | .bulkString _ => le_rfl
  | .number _ => le_rfl
  | .array items => by
    have := depthList_le_length items
    rw [depth, frames, List.length_cons]
    omega

theorem depthList_le_length : ∀ vs : List RespValue, depthList vs ≤ (framesList vs).length
  | [] => le_rfl
  | v :: vs => by
    have := depth_le_length v
    have := depthList_le_length vs
    rw [depthList, framesList, List.length_append]
    omega
end

end RespValue

/-- Reads `len` items with `read`, one after another. -/
def readItemsWith (read : RespBuffer → Option (RespValue × RespBuffer)) :
    Nat → RespBuffer → Option (List RespValue × RespBuffer)
  | 0, rest => some ([], rest)
  | len + 1, buffer =>
    match read buffer with
    | none => none
    | some (item, rest) =>
      match readItemsWith read len rest with
      | none => none
      | some (items, rest) => some (item :: items, rest)

/-- Reads one reply off the front of a buffer, through at most `fuel` levels of arrays. -/
def readValue : Nat → RespBuffer → Option (RespValue × RespBuffer)
  | 0, _ => none
  | _ + 1, [] => none
  | _ + 1, .bulkString b :: rest => some (.bulkString b, rest)
  | _ + 1, .number n :: rest => some (.number n, rest)
  | fuel + 1, .arrayLen len :: rest =>
    (readItemsWith (readValue fuel) len rest).map fun (items, rest) => (.array items, rest)

/-- A client reading a whole buffer as one reply: a buffer never nests deeper than it is long. -/
def readReply (buffer : RespBuffer) : Option RespValue :=
  match readValue buffer.length buffer with
  | some (v, []) => some v
  | _ => none

mutual
/-- **The reader gives every reply back.**  Whatever follows a reply's frames, the reader reads the
reply and leaves what follows. -/
theorem readValue_frames :
    ∀ (v : RespValue) (fuel : Nat) (rest : RespBuffer), v.depth ≤ fuel →
      readValue fuel (v.frames ++ rest) = some (v, rest)
  | .bulkString _, _ + 1, _, _ => rfl
  | .number _, _ + 1, _, _ => rfl
  | .array items, fuel + 1, rest, h => by
    rw [RespValue.depth] at h
    rw [RespValue.frames, List.cons_append, readValue,
      readItemsWith_framesList items fuel rest (by omega)]
    rfl

theorem readItemsWith_framesList : ∀ (items : List RespValue) (fuel : Nat) (rest : RespBuffer),
    RespValue.depthList items ≤ fuel →
    readItemsWith (readValue fuel) items.length (RespValue.framesList items ++ rest) =
      some (items, rest)
  | [], _, _, _ => rfl
  | v :: vs, fuel, rest, h => by
    rw [RespValue.depthList] at h
    rw [RespValue.framesList, List.length_cons, readItemsWith, List.append_assoc,
      readValue_frames v fuel _ (by omega)]
    simp only [readItemsWith_framesList vs fuel rest (by omega)]
end

theorem readItemsWith_sound {read : RespBuffer → Option (RespValue × RespBuffer)}
    (hread : ∀ buffer v rest, read buffer = some (v, rest) → buffer = v.frames ++ rest) :
    ∀ (len : Nat) (buffer : RespBuffer) (items : List RespValue) (rest : RespBuffer),
      readItemsWith read len buffer = some (items, rest) →
      items.length = len ∧ buffer = RespValue.framesList items ++ rest
  | 0, buffer, items, rest, h => by
    cases h
    exact ⟨rfl, rfl⟩
  | len + 1, buffer, items, rest, h => by
    rw [readItemsWith] at h
    split at h
    · cases h
    · rename_i item rest₁ hitem
      split at h
      · cases h
      · rename_i items' rest₂ hitems
        cases h
        obtain ⟨hlen, rfl⟩ := readItemsWith_sound hread len rest₁ items' rest hitems
        rw [hread _ _ _ hitem, List.length_cons, hlen, RespValue.framesList, List.append_assoc]
        exact ⟨rfl, rfl⟩

/-- **The reader reads only replies' frames.**  Whatever it reads off a buffer is a reply whose
frames the buffer starts with. -/
theorem readValue_sound :
    ∀ (fuel : Nat) (buffer : RespBuffer) (v : RespValue) (rest : RespBuffer),
      readValue fuel buffer = some (v, rest) → buffer = v.frames ++ rest
  | 0, _, _, _, h => by cases h
  | _ + 1, [], _, _, h => by cases h
  | _ + 1, .bulkString _ :: _, _, _, h => by cases h; rfl
  | _ + 1, .number _ :: _, _, _, h => by cases h; rfl
  | fuel + 1, .arrayLen len :: rest, v, rest', h => by
    rw [readValue] at h
    obtain ⟨⟨items, rest₁⟩, hitems, hv⟩ := Option.map_eq_some'.1 h
    cases hv
    obtain ⟨rfl, rfl⟩ := readItemsWith_sound (readValue_sound fuel) len rest items rest' hitems
    rfl

/-- **A buffer is read as one reply exactly when it is that reply's frames.** -/
theorem readReply_eq_some_iff (buffer : RespBuffer) (v : RespValue) :
    readReply buffer = some v ↔ buffer = v.frames := by
  constructor
  · intro h
    unfold readReply at h
    split at h
    · rename_i v' hread
      cases h
      simpa using readValue_sound _ _ _ _ hread
    · cases h
  · rintro rfl
    have h := readValue_frames v v.frames.length [] (RespValue.depth_le_length v)
    rw [List.append_nil] at h
    rw [readReply, h]

end SableDb
