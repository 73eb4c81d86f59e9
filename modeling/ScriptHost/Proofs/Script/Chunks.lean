import Mathlib.Algebra.Group.Nat.Defs
import ScriptHost.Proofs.Checksum.Crc32
import ScriptHost.Proofs.Text.Shown
import ScriptHost.Script.Chunk
/-!
Chunks and the functions that they stand for. A chunk is read exactly if it is the one that its
prototype is written as, so that every prototype has one chunk. A chunk of which one byte was altered
is not loaded.
-/
namespace ScriptHost.Script

namespace Chunk

open Checksum (crc32)
open Text (toList_eq)

/-! ## Words as bytes -/

theorem ofLittleEndian_littleEndian (w : UInt32) : ofLittleEndian (littleEndian w) = w.toNat := by
  have bound := w.toNat_lt
  simp only [littleEndian, ofLittleEndian, UInt32.toNat_toUInt8, UInt32.toNat_shiftRight,
    Nat.shiftRight_eq_div_pow, UInt32.reduceToNat, Nat.reduceMod, Nat.reducePow]
  omega

theorem length_littleEndian (w : UInt32) : (littleEndian w).length = 4 := rfl

/-- Four bytes make a word. -/
theorem ofLittleEndian_lt {bytes : List UInt8} (length : bytes.length = 4) :
    ofLittleEndian bytes < 2 ^ 32 := by
  match bytes, length with
  | [a, b, c, d], _ =>
    have := a.toNat_lt
    have := b.toNat_lt
    have := c.toNat_lt
    have := d.toNat_lt
    simp only [ofLittleEndian]
    omega

/-- Four bytes are the bytes of the word that they make. -/
theorem littleEndian_ofLittleEndian {bytes : List UInt8} (length : bytes.length = 4) :
    littleEndian (.ofNat (ofLittleEndian bytes)) = bytes := by
  have bound := ofLittleEndian_lt length
  match bytes, length with
  | [a, b, c, d], _ =>
    have := a.toNat_lt
    have := b.toNat_lt
    have := c.toNat_lt
    have := d.toNat_lt
    simp only [ofLittleEndian] at bound
    simp only [littleEndian, ofLittleEndian, List.cons.injEq, ← UInt8.toNat_inj,
      UInt32.toNat_toUInt8, UInt32.toNat_shiftRight, Nat.shiftRight_eq_div_pow, UInt32.reduceToNat,
      Nat.reduceMod, Nat.reducePow, UInt32.toNat_ofNat_of_lt' bound, and_true]
    omega

/-! ## Names as bytes -/

/-- The bytes of a name are read as that name, and no others are. -/
theorem fromUTF8?_eq_some_iff {bytes : List UInt8} {name : String} :
    String.fromUTF8? ⟨bytes.toArray⟩ = some name ↔ name.toUTF8.toList = bytes := by
  rw [toList_eq]
  unfold String.fromUTF8?
  constructor
  · intro read
    split at read
    · cases read
      rfl
    · cases read
  · rintro rfl
    have same : (⟨name.toUTF8.data.toList.toArray⟩ : ByteArray) = name.toUTF8 := by
      rw [Array.toArray_toList]
    rw [same]
    exact dif_pos name.isValidUTF8

theorem length_toUTF8 (name : String) : name.toUTF8.toList.length = name.utf8ByteSize := by
  rw [toList_eq]
  rfl

/-! ## Chunks -/

theorem length_covered (name : List UInt8) : (covered name).length = 9 + name.length := by
  simp only [covered, List.length_append, length_littleEndian]
  rfl

/-- What the checksum covers is a mark, a version, a length, and that many bytes. -/
theorem eq_covered {body : List UInt8} (long : 9 ≤ body.length) (marked : body.take 4 = mark)
    (versioned : (body.drop 4).head? = some version)
    (length : body.length = 9 + ofLittleEndian ((body.drop 5).take 4)) :
    body = covered (body.drop 9) := by
  have four : ((body.drop 5).take 4).length = 4 := by
    rw [List.length_take, List.length_drop]
    omega
  have size : (body.drop 9).length = ofLittleEndian ((body.drop 5).take 4) := by
    rw [List.length_drop]
    omega
  have fifth : body.drop 4 = version :: body.drop 5 := by
    rw [List.drop_eq_getElem_cons (by omega)]
    rw [List.head?_drop, List.getElem?_eq_getElem (by omega)] at versioned
    rw [Option.some.inj versioned]
  calc body = body.take 4 ++ body.drop 4 := (List.take_append_drop 4 body).symm
    _ = mark ++ version :: body.drop 5 := by rw [marked, fifth]
    _ = mark ++ version :: ((body.drop 5).take 4 ++ (body.drop 5).drop 4) := by
      rw [List.take_append_drop]
    _ = covered (body.drop 9) := by
      rw [List.drop_drop]
      unfold covered
      rw [size, littleEndian_ofLittleEndian four]
      simp only [List.append_assoc, List.cons_append, List.nil_append]

/-- A chunk without its last four bytes is what the checksum covers, and those are the checksum. -/
theorem parts_encode (name : String) :
    (encode name).take ((encode name).length - 4) = covered name.toUTF8.toList ∧
      (encode name).drop ((encode name).length - 4) =
        littleEndian (crc32 (covered name.toUTF8.toList)) := by
  have length : (encode name).length - 4 = (covered name.toUTF8.toList).length := by
    unfold encode
    rw [List.length_append, length_littleEndian, Nat.add_sub_cancel]
  rw [length]
  exact ⟨List.take_left, List.drop_left⟩

theorem length_encode (name : String) : (encode name).length = 13 + name.utf8ByteSize := by
  unfold encode
  rw [List.length_append, length_covered, length_littleEndian, length_toUTF8]
  omega

/-- What a prototype is written as is read as its name. -/
theorem decode_encode {name : String} (short : name.utf8ByteSize < 2 ^ 32) :
    decode (encode name) = .ok name := by
  obtain ⟨body, last⟩ := parts_encode name
  have long : ¬ ((encode name).length < 13 ∨ (encode name).take 4 ≠ mark) := by
    have length := length_encode name
    exact not_or.2 ⟨by omega, fun other => other rfl⟩
  have versioned : ¬ ((encode name).drop 4).head? ≠ some version := fun other => other rfl
  have size : name.toUTF8.toList.length < 2 ^ 32 := by
    rw [length_toUTF8]
    exact short
  have counted : ofLittleEndian (((covered name.toUTF8.toList).drop 5).take 4) =
      name.toUTF8.toList.length :=
    (ofLittleEndian_littleEndian _).trans (UInt32.toNat_ofNat_of_lt' size)
  have read : String.fromUTF8? ⟨((covered name.toUTF8.toList).drop 9).toArray⟩ = some name :=
    fromUTF8?_eq_some_iff.2 rfl
  unfold decode
  rw [if_neg long, if_neg versioned]
  simp only [body, last, ofLittleEndian_littleEndian, UInt32.ofNat_toNat, counted, length_covered,
    read, ne_eq, not_true_eq_false, if_false]

/-- What bytes that are read as a name have passed: `body` is all but the last four of them. -/
structure Passed (chunk body : List UInt8) (name : String) : Prop where
  long : 13 ≤ chunk.length
  marked : chunk.take 4 = mark
  versioned : (chunk.drop 4).head? = some version
  checked : crc32 body = .ofNat (ofLittleEndian (chunk.drop (chunk.length - 4)))
  length : body.length = 9 + ofLittleEndian ((body.drop 5).take 4)
  read : String.fromUTF8? ⟨(body.drop 9).toArray⟩ = some name

theorem passed_of_decode {chunk : List UInt8} {name : String} (decoded : decode chunk = .ok name) :
    Passed chunk (chunk.take (chunk.length - 4)) name := by
  unfold decode at decoded
  split at decoded
  · cases decoded
  rename_i isChunk
  obtain ⟨long, marked⟩ := not_or.1 isChunk
  split at decoded
  · cases decoded
  rename_i versioned
  dsimp only at decoded
  split at decoded
  · cases decoded
  rename_i checked
  split at decoded
  · cases decoded
  rename_i length
  split at decoded
  · rename_i read
    cases decoded
    exact ⟨Nat.le_of_not_lt long, Decidable.not_not.1 marked, Decidable.not_not.1 versioned,
      Decidable.not_not.1 checked, Decidable.not_not.1 length, read⟩
  · cases decoded

/-- Bytes that are read as a name are what the prototype of that name is written as. -/
theorem eq_encode_of_decode {chunk : List UInt8} {name : String}
    (decoded : decode chunk = .ok name) : name.utf8ByteSize < 2 ^ 32 ∧ chunk = encode name := by
  have passed := passed_of_decode decoded
  have long := passed.long
  have split := List.take_append_drop (chunk.length - 4) chunk
  have last : (chunk.drop (chunk.length - 4)).length = 4 := by
    rw [List.length_drop]
    omega
  have size : (chunk.take (chunk.length - 4)).length = chunk.length - 4 := by
    rw [List.length_take]
    omega
  have marked : (chunk.take (chunk.length - 4)).take 4 = mark := by
    rw [List.take_take, Nat.min_eq_left (by omega)]
    exact passed.marked
  have versioned : ((chunk.take (chunk.length - 4)).drop 4).head? = some version := by
    rw [List.drop_take, List.head?_take, if_neg (by omega)]
    exact passed.versioned
  generalize chunk.take (chunk.length - 4) = body at passed split size marked versioned
  have four : ((body.drop 5).take 4).length = 4 := by
    rw [List.length_take, List.length_drop]
    omega
  have bound := ofLittleEndian_lt four
  have named : name.toUTF8.toList = body.drop 9 := fromUTF8?_eq_some_iff.1 passed.read
  have isCovered := eq_covered (by omega) marked versioned passed.length
  rw [← named] at isCovered
  constructor
  · have count := length_covered name.toUTF8.toList
    rw [← isCovered, passed.length, length_toUTF8] at count
    omega
  · rw [← split, ← littleEndian_ofLittleEndian last, ← passed.checked, isCovered]
    rfl

end Chunk

/-! ## Functions -/

/-- A function of a prototype that is there. -/
theorem State.loadPrototype_fst (s : State) (name : String) (f : FunctionRef) :
    (s.loadPrototype name).1 = .ok f ↔
      ∃ body, s.prototypes.find? name = some body ∧ f = ⟨s.nextId, name, some name, .block body⟩ := by
  unfold State.loadPrototype
  cases found : s.prototypes.find? name with
  | none => simp
  | some body =>
    simp only [State.newFunction, Except.ok.injEq, Option.some.injEq, exists_eq_left']
    exact eq_comm

/-- Loading what a prototype is written as makes a function of the prototype. -/
theorem State.load_encode (s : State) (chunkName : String) {name : String}
    (short : name.utf8ByteSize < 2 ^ 32) :
    s.load (Chunk.encode name) chunkName = s.loadPrototype name := by
  unfold State.load
  rw [Chunk.decode_encode short]

/-- Bytes that are loaded are what a prototype that is there is written as. -/
theorem State.written_of_load {s : State} {chunk : List UInt8} {chunkName : String}
    {f : FunctionRef} (loaded : (s.load chunk chunkName).1 = .ok f) :
    ∃ name, f.proto = some name ∧ chunk = Chunk.encode name := by
  unfold State.load at loaded
  cases decoded : Chunk.decode chunk with
  | error flaw =>
    rw [decoded] at loaded
    cases loaded
  | ok name =>
    rw [decoded] at loaded
    obtain ⟨body, found, rfl⟩ := (s.loadPrototype_fst name f).1 loaded
    exact ⟨name, rfl, (Chunk.eq_encode_of_decode decoded).2⟩

theorem FunctionRef.dump_of_proto {f : FunctionRef} {name : String} (proto : f.proto = some name) :
    f.dump = .ok (Chunk.encode name) := by
  unfold FunctionRef.dump
  rw [proto]

/-- Dumping and loading undo each other. A dumped function is loaded exactly where its prototype is
known, and what is loaded is a function of that prototype with the body that it has there. Whatever
bytes are loaded, dumping the function gives those bytes again, so that no two chunks are loaded as
one prototype. -/
theorem dump_load_inverse (s : State) (chunkName : String) :
    (∀ (f : FunctionRef) (name : String), f.proto = some name → name.utf8ByteSize < 2 ^ 32 →
      ∃ chunk, f.dump = .ok chunk ∧
        ((∃ g, (s.load chunk chunkName).1 = .ok g) ↔ (s.prototypes.find? name).isSome) ∧
        ∀ g, (s.load chunk chunkName).1 = .ok g →
          g.name = name ∧ g.proto = some name ∧
            ∃ body, s.prototypes.find? name = some body ∧ g.body = .block body) ∧
    (∀ chunk g, (s.load chunk chunkName).1 = .ok g → g.dump = .ok chunk) ∧
    ∀ chunk chunk' g g', (s.load chunk chunkName).1 = .ok g →
      (s.load chunk' chunkName).1 = .ok g' → g.proto = g'.proto → chunk = chunk' := by
  refine ⟨fun f name proto short => ?_, fun chunk g loaded => ?_,
    fun chunk chunk' g g' loaded loaded' same => ?_⟩
  · refine ⟨Chunk.encode name, FunctionRef.dump_of_proto proto, ?_, fun g loaded => ?_⟩
    · rw [s.load_encode chunkName short, Option.isSome_iff_exists]
      constructor
      · rintro ⟨g, made⟩
        obtain ⟨body, found, _⟩ := (s.loadPrototype_fst name g).1 made
        exact ⟨body, found⟩
      · rintro ⟨body, found⟩
        exact ⟨_, (s.loadPrototype_fst name _).2 ⟨body, found, rfl⟩⟩
    · rw [s.load_encode chunkName short] at loaded
      obtain ⟨body, found, rfl⟩ := (s.loadPrototype_fst name g).1 loaded
      exact ⟨rfl, rfl, body, found, rfl⟩
  · obtain ⟨name, proto, rfl⟩ := State.written_of_load loaded
    exact FunctionRef.dump_of_proto proto
  · obtain ⟨name, proto, rfl⟩ := State.written_of_load loaded
    obtain ⟨name', proto', rfl⟩ := State.written_of_load loaded'
    rw [proto, proto', Option.some.injEq] at same
    rw [same]

/-- Scripts that know one prototype. -/
def oneProto : State where
  prototypes := Table.insert {} "häß" []
  maxStack := 8
  maxDepth := 8

/-- A function of a prototype whose name takes more bytes than characters is dumped and loaded. -/
theorem dump_load_of_one :
    ∃ chunk, (⟨5, "f", some "häß", .block []⟩ : FunctionRef).dump = .ok chunk ∧
      (∃ g, (oneProto.load chunk "=chunk").1 = .ok g ∧ g.proto = some "häß" ∧
        g.dump = .ok chunk) := by
  obtain ⟨known, again, _⟩ := dump_load_inverse oneProto "=chunk"
  obtain ⟨chunk, dumped, loads, same⟩ := known ⟨5, "f", some "häß", .block []⟩ "häß" rfl (by decide)
  obtain ⟨g, loaded⟩ := loads.2 rfl
  exact ⟨chunk, dumped, g, loaded, (same g loaded).2.1, again chunk g loaded⟩

/-! ## One altered byte

Wherever the byte stands, in the mark, the version, the length, the name or the checksum, the error
says which check noticed.
-/

namespace Chunk

open Checksum (crc32 crc32_set_ne)

/-- What is noticed when the byte at a position of a chunk is altered. -/
def flawAt (i : Nat) : Flaw :=
  if i < 4 then .notChunk else if i = 4 then .otherVersion else .wrongChecksum

/-! ### The three checks -/

theorem decode_of_unmarked {chunk : List UInt8} (unmarked : chunk.take 4 ≠ mark) :
    decode chunk = .error .notChunk := by
  rw [decode, if_pos (.inr unmarked)]

theorem decode_of_otherVersion {chunk : List UInt8} (long : 13 ≤ chunk.length)
    (marked : chunk.take 4 = mark) (other : chunk[4]? ≠ some version) :
    decode chunk = .error .otherVersion := by
  have isChunk : ¬ (chunk.length < 13 ∨ chunk.take 4 ≠ mark) :=
    not_or.2 ⟨by omega, fun unmarked => unmarked marked⟩
  rw [← List.head?_drop] at other
  rw [decode, if_neg isChunk, if_pos other]

/-- Bytes that begin like a chunk are refused if the last four are not the check of the others. -/
theorem decode_of_unchecked {chunk body last : List UInt8} (parts : chunk = body ++ last)
    (four : last.length = 4) (long : 9 ≤ body.length) (marked : body.take 4 = mark)
    (versioned : body[4]? = some version) (other : last ≠ littleEndian (crc32 body)) :
    decode chunk = .error .wrongChecksum := by
  subst parts
  have length : (body ++ last).length - 4 = body.length := by
    rw [List.length_append, four, Nat.add_sub_cancel]
  have isChunk : ¬ ((body ++ last).length < 13 ∨ (body ++ last).take 4 ≠ mark) := by
    rw [List.length_append, List.take_append_of_le_length (by omega)]
    exact not_or.2 ⟨by omega, fun unmarked => unmarked marked⟩
  have sameVersion : ¬ ((body ++ last).drop 4).head? ≠ some version := by
    rw [List.head?_drop, List.getElem?_append_left (by omega)]
    exact fun other => other versioned
  have wrong : crc32 body ≠ .ofNat (ofLittleEndian last) := by
    intro same
    apply other
    rw [same, littleEndian_ofLittleEndian four]
  rw [decode, if_neg isChunk, if_neg sameVersion]
  simp only [length, List.take_left, List.drop_left]
  rw [if_pos wrong]

/-! ### Altered chunks -/

theorem take_covered (name : List UInt8) : (covered name).take 4 = mark := rfl

theorem version_covered (name : List UInt8) : (covered name)[4]? = some version := rfl

theorem littleEndian_injective : Function.Injective littleEndian := by
  intro w w' same
  rw [← UInt32.toNat_inj, ← ofLittleEndian_littleEndian, ← ofLittleEndian_littleEndian, same]

theorem set_ne {bytes : List UInt8} {i : Nat} (inside : i < bytes.length) {b : UInt8}
    (other : b ≠ bytes[i]) : bytes.set i b ≠ bytes := by
  intro same
  have here := List.getElem_set_self (l := bytes) (i := i) (a := b) (by simpa using inside)
  simp only [same] at here
  exact other here.symm

/-- A chunk of which one byte is replaced by another is refused, by the check that covers the
byte. -/
theorem decode_altered (name : String) {i : Nat} (inside : i < (encode name).length) {b : UInt8}
    (other : b ≠ (encode name)[i]) : decode ((encode name).set i b) = .error (flawAt i) := by
  unfold encode at inside other ⊢
  have size := length_covered name.toUTF8.toList
  have marked := take_covered name.toUTF8.toList
  have versioned := version_covered name.toUTF8.toList
  generalize covered name.toUTF8.toList = body at inside other size marked versioned
  have marked' : (body ++ littleEndian (crc32 body)).take 4 = mark := by
    rw [List.take_append_of_le_length (by omega), marked]
  unfold flawAt
  rcases Nat.lt_trichotomy i 4 with inMark | rfl | behind
  · rw [if_pos inMark]
    apply decode_of_unmarked
    rw [List.take_set, marked']
    apply set_ne inMark
    simpa only [← marked', List.getElem_take] using other
  · rw [if_neg (Nat.lt_irrefl 4), if_pos rfl]
    apply decode_of_otherVersion
    · rw [List.length_set, List.length_append, length_littleEndian]
      omega
    · rw [List.take_set, List.set_eq_of_length_le (by simp), marked']
    · rw [List.getElem?_set_self inside, ← versioned, ← List.getElem?_append_left (by omega),
        List.getElem?_eq_getElem inside]
      exact fun same => other (Option.some.inj same)
  · rw [if_neg (by omega), if_neg (by omega)]
    rcases Nat.lt_or_ge i body.length with inBody | inLast
    · apply decode_of_unchecked (List.set_append_left i b inBody)
      · exact length_littleEndian _
      · rw [List.length_set]
        omega
      · rw [List.take_set, List.set_eq_of_length_le (by simp; omega), marked]
      · rw [List.getElem?_set_ne (by omega), versioned]
      · intro same
        rw [List.getElem_append_left inBody] at other
        exact crc32_set_ne inBody other (littleEndian_injective same).symm
    · have inLast' : i - body.length < (littleEndian (crc32 body)).length := by
        rw [List.length_append] at inside
        omega
      apply decode_of_unchecked (List.set_append_right i b inLast)
      · rw [List.length_set, length_littleEndian]
      · omega
      · exact marked
      · exact versioned
      · rw [List.getElem_append_right inLast] at other
        exact set_ne inLast' other

end Chunk

/-- Alterations of chunks are noticed. A function of a prototype is dumped, and whatever byte of the
chunk is replaced by another one, scripts refuse the altered chunk and are left as they were,
whatever prototypes they know. -/
theorem refused_of_altered {f : FunctionRef} {name : String} (proto : f.proto = some name) :
    ∃ chunk, f.dump = .ok chunk ∧
      ∀ (i : Nat) (inside : i < chunk.length) (b : UInt8), b ≠ chunk[i] →
        ∀ (s : State) (chunkName : String),
          s.load (chunk.set i b) chunkName =
            (.error ⟨chunkName ++ ": " ++ (Chunk.flawAt i).message, ""⟩, s) := by
  refine ⟨Chunk.encode name, FunctionRef.dump_of_proto proto, ?_⟩
  intro i inside b other s chunkName
  unfold State.load
  rw [Chunk.decode_altered name inside other]

/-- Scripts that know two prototypes whose names differ in one letter. -/
def twoProtos : State where
  prototypes := (Table.insert {} "haß" []).insert "naß" []
  maxStack := 8
  maxDepth := 8

/-- The chunk of one of two known prototypes is refused after its letter is altered to that of the
other. -/
theorem refused_of_otherLetter :
    ∃ chunk, (⟨5, "f", some "haß", .block []⟩ : FunctionRef).dump = .ok chunk ∧
      (chunk.set 9 0x6e).take 13 = Chunk.covered "naß".toUTF8.toList ∧
      twoProtos.load (chunk.set 9 0x6e) "=chunk" =
        (.error ⟨"=chunk: checksum mismatch", ""⟩, twoProtos) := by
  have proto : (⟨5, "f", some "haß", .block []⟩ : FunctionRef).proto = some "haß" := rfl
  obtain ⟨chunk, dumped, refused⟩ := refused_of_altered proto
  refine ⟨chunk, dumped, ?_, ?_⟩
  all_goals cases dumped
  · decide +kernel
  · exact refused 9 (by decide +kernel) 0x6e (by decide +kernel) twoProtos "=chunk"

end ScriptHost.Script
