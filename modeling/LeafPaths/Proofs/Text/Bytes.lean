/-!
Texts and their bytes. A run of bytes that begins and ends between characters is a text again.
-/

namespace LeafPaths.Text

/-- The text from a byte on; `none` if that byte is inside a character, or past the end. -/
def from? (s : String) (start : Nat) : Option String :=
  if start ≤ s.utf8ByteSize then String.fromUTF8? (s.toUTF8.extract start s.utf8ByteSize) else none

/-- The bytes with which a character begins wherever it stands in a text from the byte `start` on. -/
def offsetsFrom (c : Char) (start : Nat) : List Char → List Nat
  | [] => []
  | d :: ds =>
    if d = c then start :: offsetsFrom c (start + d.utf8Size) ds
    else offsetsFrom c (start + d.utf8Size) ds

def offsets (c : Char) (s : String) : List Nat := offsetsFrom c 0 s.toList

theorem fromUTF8?_toUTF8 (s : String) : String.fromUTF8? s.toUTF8 = some s := dif_pos s.isValidUTF8

theorem extract_toUTF8 (before text after : String) :
    (before ++ text ++ after).toUTF8.extract before.utf8ByteSize (before ++ text).utf8ByteSize =
      text.toUTF8 := by
  simp only [String.toUTF8_eq_toByteArray, String.utf8ByteSize, String.toByteArray_append]
  rw [ByteArray.extract_append_size_left]
  exact ByteArray.extract_append_eq_right rfl ByteArray.size_append

theorem fromUTF8?_extract (before text after : String) :
    String.fromUTF8? ((before ++ text ++ after).toUTF8.extract before.utf8ByteSize
      (before ++ text).utf8ByteSize) = some text := by
  rw [extract_toUTF8, fromUTF8?_toUTF8]

theorem from?_append (before after : String) :
    from? (before ++ after) before.utf8ByteSize = some after := by
  have whole := fromUTF8?_extract before after ""
  rw [String.append_empty] at whole
  rw [from?, if_pos (by simp), whole]

end LeafPaths.Text
