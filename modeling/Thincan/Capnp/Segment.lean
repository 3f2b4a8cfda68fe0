import Thincan.Process.Endian

/-!
# Messages of one segment

The part of the Cap'n Proto encoding that a message needs whose root is a struct
with numbers and `Data` blobs, all in one segment.  The segment holds

* a word that points to the root struct, which follows it,
* the data section of the struct, zero where nothing was set,
* its pointer section, one word for each blob,
* the blobs, each padded with zeros to whole words.

A `Builder` makes such a segment within a fixed number of words, like a message
over a `SingleSegmentAllocator`: what does not fit makes it panic, which is `none`
here.  `readRoot`, `StructReader.field` and `StructReader.blob` follow the pointers
of any segment and refuse what leads out of it.  That the reader finds what the
builder has put there is `readRoot_bytes` and `blob_of_layout`.  Limits on how much a
reader may traverse are left out.
-/

namespace Capnp

open Process

/-! ## Words and pointers -/

/-- The words it takes to hold `n` bytes. -/
def wordsFor (n : Nat) : Nat := (n + 7) / 8

/-- A blob as it stands in a segment. -/
def padded (blob : List UInt8) : List UInt8 :=
  blob ++ List.replicate (8 * wordsFor blob.length - blob.length) 0

theorem length_padded (blob : List UInt8) : (padded blob).length = 8 * wordsFor blob.length := by
  rw [padded, List.length_append, List.length_replicate, wordsFor]
  omega

/-- A pointer to a struct that begins right after it. -/
def structPointer (dataWords pointerWords : Nat) : List UInt8 :=
  leBytes 4 0 ++ (leBytes 2 dataWords ++ leBytes 2 pointerWords)

/-- A pointer to `count` bytes that begin `offset` words after it. -/
def listPointer (offset count : Nat) : List UInt8 :=
  leBytes 4 (4 * offset + 1) ++ leBytes 4 (8 * count + 2)

@[simp] theorem length_structPointer (dataWords pointerWords : Nat) :
    (structPointer dataWords pointerWords).length = 8 := by
  simp only [structPointer, List.length_append, length_leBytes]

@[simp] theorem length_listPointer (offset count : Nat) : (listPointer offset count).length = 8 := by
  simp only [listPointer, List.length_append, length_leBytes]

/-- `bs` with `xs` written over it from byte `i` on. -/
def splice (bs : List UInt8) (i : Nat) (xs : List UInt8) : List UInt8 :=
  bs.take i ++ (xs ++ bs.drop (i + xs.length))

/-- The middle of a string is replaced by as many bytes. -/
theorem splice_append {pre old post new : List UInt8} {i : Nat} (hi : i = pre.length)
    (hlen : new.length = old.length) :
    splice (pre ++ (old ++ post)) i new = pre ++ (new ++ post) := by
  obtain rfl := hi
  rw [splice, List.take_left, hlen, ← List.append_assoc pre old, List.drop_left' List.length_append]

/-! ## Builders -/

/-- A message under construction, in a segment of `capacity` words. -/
structure Builder where
  capacity : Nat
  data : List UInt8
  pointers : List UInt8
  blobs : List UInt8

namespace Builder

/-- The words in use. -/
def words (b : Builder) : Nat := 1 + (b.data.length + b.pointers.length + b.blobs.length) / 8

/-- `init_root`: the pointer to the root, and the root, all zeros. -/
def initRoot (capacity dataWords pointerWords : Nat) : Option Builder :=
  if 1 + (dataWords + pointerWords) ≤ capacity then
    some ⟨capacity, List.replicate (8 * dataWords) 0, List.replicate (8 * pointerWords) 0, []⟩
  else none

/-- Set a field of `k` bytes at byte `i` of the data section. -/
def setField (k i n : Nat) (b : Builder) : Builder :=
  { b with data := splice b.data i (leBytes k n) }

/-- Set pointer `i` to a new blob, which takes no space if it is empty. -/
def setData (i : Nat) (blob : List UInt8) (b : Builder) : Option Builder :=
  if b.words + wordsFor blob.length ≤ b.capacity then
    some { b with
      pointers := splice b.pointers (8 * i)
        (listPointer (b.pointers.length / 8 - (i + 1) + b.blobs.length / 8) blob.length)
      blobs := b.blobs ++ padded blob }
  else none

/-- The next pointer is set: it points past the pointers that follow it and the blobs
that are there. -/
theorem setData_eq {b : Builder} {i : Nat} {blob : List UInt8} (pre post : List UInt8)
    (after blobWords : Nat)
    (hpointers : b.pointers = pre ++ (List.replicate 8 0 ++ post)) (hpre : pre.length = 8 * i)
    (hpost : post.length = 8 * after) (hblobs : b.blobs.length = 8 * blobWords)
    (hroom : b.words + wordsFor blob.length ≤ b.capacity) :
    b.setData i blob = some { b with
      pointers := pre ++ (listPointer (after + blobWords) blob.length ++ post)
      blobs := b.blobs ++ padded blob } := by
  have hoffset : b.pointers.length / 8 - (i + 1) + b.blobs.length / 8 = after + blobWords := by
    rw [hpointers, hblobs]
    simp only [List.length_append, List.length_replicate, hpre, hpost]
    omega
  have hlen : (listPointer (after + blobWords) blob.length).length =
      (List.replicate 8 (0 : UInt8)).length := by
    rw [length_listPointer, List.length_replicate]
  rw [setData, if_pos hroom, hoffset, hpointers, splice_append hpre.symm hlen]

/-- The part of the segment in use, `get_segments_for_output`. -/
def output (b : Builder) : List UInt8 :=
  structPointer (b.data.length / 8) (b.pointers.length / 8) ++ (b.data ++ (b.pointers ++ b.blobs))

theorem length_output (b : Builder) :
    b.output.length = 8 + (b.data.length + (b.pointers.length + b.blobs.length)) := by
  simp only [output, List.length_append, length_structPointer]

end Builder

/-! ## Readers -/

/-- Why a reader gives up. -/
inductive ReadError where
  | outOfBounds
  | wrongKind
deriving DecidableEq, Repr

/-- What a pointer says. -/
inductive Pointer where
  | null
  | struct (offset : Int) (dataWords pointerWords : Nat)
  | list (offset : Int) (elementSize count : Nat)
  | other
deriving DecidableEq, Repr

/-- A number of 30 bits, the highest of them its sign. -/
def signed30 (n : Nat) : Int := if n < 2 ^ 29 then n else n - 2 ^ 30

/-- Take a pointer apart. -/
def readPointer (word : List UInt8) : Pointer :=
  let lo := leNat (word.take 4)
  let hi := leNat (word.drop 4)
  if lo = 0 ∧ hi = 0 then .null
  else if lo % 4 = 0 then .struct (signed30 (lo / 4)) (hi % 2 ^ 16) (hi / 2 ^ 16)
  else if lo % 4 = 1 then .list (signed30 (lo / 4)) (hi % 8) (hi / 8)
  else .other

/-- `n` bytes of a segment from byte `i` on. -/
def bytesAt (seg : List UInt8) (i : Int) (n : Nat) : Except ReadError (List UInt8) :=
  if 0 ≤ i ∧ i.toNat + n ≤ seg.length then .ok ((seg.drop i.toNat).take n) else .error .outOfBounds

/-- A struct in a segment. -/
structure StructReader where
  data : List UInt8
  /-- The word its pointer section begins at. -/
  pointersAt : Int
  pointerWords : Nat

/-- The root of a message. -/
def readRoot (seg : List UInt8) : Except ReadError StructReader := do
  match readPointer (← bytesAt seg 0 8) with
  | .null => return ⟨[], 0, 0⟩
  | .struct offset dataWords pointerWords =>
      let start := 1 + offset
      let _ ← bytesAt seg (8 * start) (8 * (dataWords + pointerWords))
      return ⟨← bytesAt seg (8 * start) (8 * dataWords), start + dataWords, pointerWords⟩
  | .list _ _ _ | .other => throw .wrongKind

/-- The field of `k` bytes at byte `i` of the data section; a struct of an older
schema has a shorter section. -/
def StructReader.field (r : StructReader) (k i : Nat) : Nat :=
  if i + k ≤ r.data.length then leNat ((r.data.drop i).take k) else 0

/-- The blob pointer `i` points to. -/
def StructReader.blob (r : StructReader) (seg : List UInt8) (i : Nat) :
    Except ReadError (List UInt8) := do
  if i < r.pointerWords then
    match readPointer (← bytesAt seg (8 * (r.pointersAt + i)) 8) with
    | .null => return []
    | .list offset elementSize count =>
        if elementSize = 2 then
          let start := r.pointersAt + i + 1 + offset
          let _ ← bytesAt seg (8 * start) (8 * wordsFor count)
          bytesAt seg (8 * start) count
        else throw .wrongKind
    | .struct _ _ _ | .other => throw .wrongKind
  else return []

/-! ## The reader undoes the builder -/

theorem bytesAt_append (pre : List UInt8) {mid post : List UInt8} {i : Int} {n : Nat}
    (hi : i = (pre.length : Int)) (hn : n = mid.length) :
    bytesAt (pre ++ (mid ++ post)) i n = .ok mid := by
  obtain rfl := hi
  obtain rfl := hn
  have hle : pre.length + mid.length ≤ (pre ++ (mid ++ post)).length := by
    simp only [List.length_append]
    omega
  rw [bytesAt, if_pos ⟨Int.natCast_nonneg _, hle⟩, Int.toNat_natCast, List.drop_left, List.take_left]

theorem readPointer_structPointer {dataWords pointerWords : Nat} (hd : 0 < dataWords)
    (hd' : dataWords < 2 ^ 16) (hp : pointerWords < 2 ^ 16) :
    readPointer (structPointer dataWords pointerWords) = .struct 0 dataWords pointerWords := by
  have htake : (structPointer dataWords pointerWords).take 4 = leBytes 4 0 :=
    List.take_left' (length_leBytes _ _)
  have hdrop : (structPointer dataWords pointerWords).drop 4 =
      leBytes 2 dataWords ++ leBytes 2 pointerWords := List.drop_left' (length_leBytes _ _)
  have hlo : leNat (leBytes 4 0) = 0 := leNat_leBytes (by decide)
  have hhi : leNat (leBytes 2 dataWords ++ leBytes 2 pointerWords) =
      dataWords + 2 ^ 16 * pointerWords := by
    rw [leNat_append, leNat_leBytes hd', leNat_leBytes hp, length_leBytes]
    rfl
  rw [readPointer, htake, hdrop, hlo, hhi]
  have hmod : (dataWords + 2 ^ 16 * pointerWords) % 2 ^ 16 = dataWords := by omega
  have hdiv : (dataWords + 2 ^ 16 * pointerWords) / 2 ^ 16 = pointerWords := by omega
  simp only [hmod, hdiv]
  rw [if_neg (by omega)]
  rfl

theorem readPointer_listPointer {offset count : Nat} (ho : offset < 2 ^ 29) (hc : count < 2 ^ 29) :
    readPointer (listPointer offset count) = .list offset 2 count := by
  have htake : (listPointer offset count).take 4 = leBytes 4 (4 * offset + 1) :=
    List.take_left' (length_leBytes _ _)
  have hdrop : (listPointer offset count).drop 4 = leBytes 4 (8 * count + 2) :=
    List.drop_left' (length_leBytes _ _)
  rw [readPointer, htake, hdrop, leNat_leBytes (by omega), leNat_leBytes (by omega)]
  have hdiv : (4 * offset + 1) / 4 = offset := by omega
  have hmod : (8 * count + 2) % 8 = 2 := by omega
  have hdiv' : (8 * count + 2) / 8 = count := by omega
  rw [if_neg (by omega), if_neg (by omega), if_pos (by omega), hdiv, hmod, hdiv', signed30, if_pos ho]

/-- The root of what a builder has made. -/
theorem readRoot_output {b : Builder} {dataWords pointerWords : Nat}
    (hd : b.data.length = 8 * dataWords) (hp : b.pointers.length = 8 * pointerWords)
    (hd₀ : 0 < dataWords) (hd' : dataWords < 2 ^ 16) (hp' : pointerWords < 2 ^ 16) :
    readRoot b.output = .ok ⟨b.data, 1 + dataWords, pointerWords⟩ := by
  have hdiv : b.data.length / 8 = dataWords := by omega
  have hdiv' : b.pointers.length / 8 = pointerWords := by omega
  have hroot : bytesAt b.output 0 8 = .ok (structPointer dataWords pointerWords) := by
    rw [Builder.output, hdiv, hdiv']
    exact bytesAt_append [] rfl (length_structPointer _ _).symm
  have hdata : bytesAt b.output (8 * (1 + 0)) (8 * dataWords) = .ok b.data := by
    rw [Builder.output]
    refine bytesAt_append _ ?_ hd.symm
    rw [length_structPointer]
    rfl
  have hall : bytesAt b.output (8 * (1 + 0)) (8 * (dataWords + pointerWords)) =
      .ok (b.data ++ b.pointers) := by
    rw [Builder.output, ← List.append_assoc b.data]
    refine bytesAt_append _ ?_ ?_
    · rw [length_structPointer]
      rfl
    · rw [List.length_append, hd, hp]
      omega
  rw [readRoot, hroot]
  simp only [bind, Except.bind, readPointer_structPointer hd₀ hd' hp', hall, hdata]
  rfl

/-- A field is read back. -/
theorem field_eq {r : StructReader} {k n : Nat} (pre post : List UInt8)
    (hdata : r.data = pre ++ (leBytes k n ++ post)) (hn : n < 256 ^ k) :
    r.field k pre.length = n := by
  have hle : pre.length + k ≤ r.data.length := by
    rw [hdata]
    simp only [List.length_append, length_leBytes]
    omega
  rw [StructReader.field, if_pos hle, hdata, List.drop_left, List.take_left' (length_leBytes k n),
    leNat_leBytes hn]

/-- A blob is found where its pointer says. -/
theorem blob_of_layout {r : StructReader} {seg pre blob post pre' post' : List UInt8} {i offset : Nat}
    (at' : Nat) (hat : r.pointersAt = at') (hi : i < r.pointerWords)
    (hpointer : seg = pre' ++ (listPointer offset blob.length ++ post'))
    (hpre' : pre'.length = 8 * (at' + i)) (hseg : seg = pre ++ (padded blob ++ post))
    (hpre : pre.length = 8 * (at' + i + 1 + offset)) (ho : offset < 2 ^ 29)
    (hlen : blob.length < 2 ^ 29) : r.blob seg i = .ok blob := by
  have hword : bytesAt seg (8 * (r.pointersAt + i)) 8 = .ok (listPointer offset blob.length) := by
    rw [hpointer]
    refine bytesAt_append _ ?_ (length_listPointer _ _).symm
    rw [hpre', hat]
    push_cast
    rfl
  have hstart : 8 * (r.pointersAt + i + 1 + offset) = (pre.length : Int) := by
    rw [hpre, hat]
    push_cast
    rfl
  have hroom : bytesAt seg (8 * (r.pointersAt + i + 1 + offset)) (8 * wordsFor blob.length) =
      .ok (padded blob) := by
    rw [hseg]
    exact bytesAt_append _ hstart (length_padded blob).symm
  have hblob : bytesAt seg (8 * (r.pointersAt + i + 1 + offset)) blob.length = .ok blob := by
    rw [hseg, padded, List.append_assoc]
    exact bytesAt_append _ hstart rfl
  rw [StructReader.blob, if_pos hi, hword]
  simp only [bind, Except.bind, readPointer_listPointer ho hlen, if_pos, hroom, hblob]

/-- The blobs of what a builder has made: the one `offset` words after pointer `i`. -/
theorem blob_output {b : Builder} {dataWords pointerWords i offset : Nat} {blob : List UInt8}
    (hd : b.data.length = 8 * dataWords) (hp : b.pointers.length = 8 * pointerWords)
    (pre post before behind : List UInt8)
    (hpointers : b.pointers = pre ++ (listPointer offset blob.length ++ post))
    (hpre : pre.length = 8 * i) (hblobs : b.blobs = before ++ (padded blob ++ behind))
    (hoffset : 8 * (i + 1 + offset) = b.pointers.length + before.length) (ho : offset < 2 ^ 29)
    (hlen : blob.length < 2 ^ 29) :
    StructReader.blob ⟨b.data, 1 + dataWords, pointerWords⟩ b.output i = .ok blob := by
  have hi : i < pointerWords := by
    have hlength := congrArg List.length hpointers
    simp only [List.length_append, length_listPointer] at hlength
    omega
  set root := structPointer (b.data.length / 8) (b.pointers.length / 8) with hroot
  have hpointer : b.output =
      (root ++ (b.data ++ pre)) ++ (listPointer offset blob.length ++ (post ++ b.blobs)) := by
    rw [Builder.output, ← hroot, hpointers]
    simp only [List.append_assoc]
  have hseg : b.output =
      (root ++ (b.data ++ (b.pointers ++ before))) ++ (padded blob ++ behind) := by
    rw [Builder.output, ← hroot, hblobs]
    simp only [List.append_assoc]
  refine blob_of_layout (1 + dataWords) (by push_cast; rfl) hi hpointer ?_ hseg ?_ ho hlen
  · simp only [List.length_append, hroot, length_structPointer, hd, hpre]
    omega
  · simp only [List.length_append, hroot, length_structPointer, hd]
    omega

end Capnp
