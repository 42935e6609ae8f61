import FreeForm.Text.Basic

namespace FreeForm

namespace Text

def encode (t : Text) : List UInt8 :=
  t.flatMap String.utf8EncodeChar

def decode? (bytes : List UInt8) : Option Text :=
  (String.fromUTF8? bytes.toByteArray).map String.toList

theorem decode?_encode (t : Text) : decode? (encode t) = some t := by
  have hb : (encode t).toByteArray = (String.ofList t).toByteArray := by
    rw [String.toByteArray_ofList]; rfl
  have hv : (encode t).toByteArray.IsValidUTF8 := hb ▸ (String.ofList t).isValidUTF8
  have hs : String.fromUTF8 (encode t).toByteArray hv = String.ofList t :=
    String.toByteArray_inj.mp hb
  simp [decode?, String.fromUTF8?, hv, hs]

end Text

end FreeForm
