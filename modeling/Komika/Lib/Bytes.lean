import Mathlib.Data.List.Basic
import Mathlib.Data.String.Basic
import Mathlib.Order.Basic

/-!
# The bytes of a text

A text and its UTF-8 bytes tell the same, and texts of ASCII letters come in the order of their
bytes.

SQLite's `BINARY` collation compares two texts byte by byte.  `asBytes` makes it an
order that Lean has, and for texts of ASCII letters the order is the one on characters,
so that a comparison of such texts may be read off the letters.

* `asBytes_injective` — a text is known by its bytes;
* `asBytes_lt_iff` — ASCII texts come in the order of their bytes.
-/

namespace Komika.Lib.Bytes

/-- The bytes of a text in UTF-8. -/
def asBytes (s : String) : List UInt8 := s.toList.flatMap String.utf8EncodeChar

theorem asBytes_injective : Function.Injective asBytes := by
  intro s t h
  have hbytes : s.toList.utf8Encode = t.toList.utf8Encode := by
    rw [List.utf8Encode, List.utf8Encode]
    exact congrArg List.toByteArray h
  rw [String.utf8Encode_toList, String.utf8Encode_toList] at hbytes
  exact String.toByteArray_inj.mp hbytes

/-- Every letter is one byte. -/
def IsAscii (cs : List Char) : Prop := ∀ c ∈ cs, c.toNat < 128

/-- The byte of an ASCII letter. -/
def byteOf (c : Char) : UInt8 := UInt8.ofNat c.toNat

/-- An ASCII letter is encoded in one byte. -/
theorem utf8EncodeChar_ascii {c : Char} (hc : c.toNat < 128) :
    String.utf8EncodeChar c = [byteOf c] := by
  have hle : c.toNat ≤ 127 := by omega
  simp [String.utf8EncodeChar, byteOf, hle]

/-- So an ASCII text has one byte for each letter. -/
theorem asBytes_ascii {cs : List Char} (h : IsAscii cs) :
    asBytes (String.ofList cs) = cs.map byteOf := by
  rw [asBytes, String.toList_ofList]
  induction cs with
  | nil => rfl
  | cons c cs ih =>
    rw [List.flatMap_cons, ih fun d hd => h d (List.mem_cons_of_mem _ hd),
      utf8EncodeChar_ascii (h c List.mem_cons_self)]
    rfl

theorem toNat_byteOf {c : Char} (hc : c.toNat < 128) : (byteOf c).toNat = c.toNat := by
  rw [byteOf, UInt8.toNat_ofNat']
  exact Nat.mod_eq_of_lt (by omega)

/-- The bytes of ASCII letters come in the order of the letters. -/
theorem byteOf_lt_iff {c d : Char} (hc : c.toNat < 128) (hd : d.toNat < 128) :
    byteOf c < byteOf d ↔ c < d := by
  rw [UInt8.lt_iff_toNat_lt, toNat_byteOf hc, toNat_byteOf hd]
  exact Iff.rfl

theorem byteOf_inj {c d : Char} (hc : c.toNat < 128) (hd : d.toNat < 128) :
    byteOf c = byteOf d ↔ c = d := by
  rw [← UInt8.toNat_inj, toNat_byteOf hc, toNat_byteOf hd]
  exact Char.toNat_inj

theorem map_byteOf_lt_iff {cs ds : List Char} (hcs : IsAscii cs) (hds : IsAscii ds) :
    cs.map byteOf < ds.map byteOf ↔ cs < ds := by
  induction cs generalizing ds with
  | nil =>
    cases ds with
    | nil => simp
    | cons d ds => simp
  | cons c cs ih =>
    cases ds with
    | nil => simp
    | cons d ds =>
      have hc := hcs c List.mem_cons_self
      have hd := hds d List.mem_cons_self
      have hcs' : IsAscii cs := fun e he => hcs e (List.mem_cons_of_mem _ he)
      have hds' : IsAscii ds := fun e he => hds e (List.mem_cons_of_mem _ he)
      rw [List.map_cons, List.map_cons, List.cons_lt_cons_iff, List.cons_lt_cons_iff,
        byteOf_lt_iff hc hd, byteOf_inj hc hd, ih hcs' hds']

/-- Texts of ASCII letters come in the order of their bytes. -/
theorem asBytes_lt_iff {s t : String} (hs : IsAscii s.toList) (ht : IsAscii t.toList) :
    asBytes s < asBytes t ↔ s < t := by
  rw [← String.ofList_toList (s := s), ← String.ofList_toList (s := t), asBytes_ascii hs,
    asBytes_ascii ht, map_byteOf_lt_iff hs ht, String.lt_iff_toList_lt, String.toList_ofList,
    String.toList_ofList]

end Komika.Lib.Bytes
