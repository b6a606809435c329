import FlowArchive.Bytes.Word

/-!
# Text as bytes

Files hold text in UTF-8. Every text has one list of bytes, from which it is read back.
-/

namespace FlowArchive.Bytes

/-- The bytes of a text. -/
def ofChars (s : List Char) : Bytes := s.flatMap String.utf8EncodeChar

def ofText (s : String) : Bytes := ofChars s.toList

/-- The text that bytes spell, if they spell one. -/
def toText? (s : Bytes) : Option String := String.fromUTF8? s.toByteArray

@[simp] theorem ofChars_append (s t : List Char) : ofChars (s ++ t) = ofChars s ++ ofChars t :=
  List.flatMap_append

theorem toText?_ofChars (s : List Char) : toText? (ofChars s) = some (String.ofList s) := by
  have valid : (ofChars s).toByteArray.IsValidUTF8 := ⟨s, rfl⟩
  rw [toText?, String.fromUTF8?, dif_pos valid]
  rfl

theorem toText?_ofText (s : String) : toText? (ofText s) = some s := by
  rw [ofText, toText?_ofChars, String.ofList_toList]

end FlowArchive.Bytes
