/-!
The order of names.  Names compare by the bytes of their UTF-8 encoding, byte
by byte, a proper beginning before the longer name.
-/

namespace DependencyAudit.Text

def bytes (s : String) : List UInt8 :=
  s.toUTF8.data.toList

theorem bytes_injective {s t : String} (h : bytes s = bytes t) : s = t := by
  apply String.toByteArray_inj.1
  exact ByteArray.ext (Array.toList_inj.1 h)

def compareBytes (s t : String) : Ordering :=
  compareOn bytes s t

instance : Std.TransCmp compareBytes :=
  inferInstanceAs (Std.TransCmp (compareOn bytes))

instance : Std.LawfulEqCmp compareBytes where
  eq_of_compare h := bytes_injective (Std.LawfulEqCmp.eq_of_compare h)

end DependencyAudit.Text
