import RenderGateway.Json.Decoder
import RenderGateway.Number.Word

/-!
# Types with a form in JSON

Two classes name the way in which the values of a type are written to JSON and
read from it, with the instances for plain data.
-/

namespace RenderGateway.Json

class ToJson (α : Type) where
  toJson : α → Json

class FromJson (α : Type) where
  decoder : Decoder α

instance : ToJson Json := ⟨id⟩
instance : ToJson String := ⟨text⟩
instance : ToJson Bool := ⟨bool⟩
instance : ToJson Nat := ⟨ofNat⟩
instance : ToJson Int := ⟨fun n => ofInt64 (Word.clampInt64 n)⟩
instance : ToJson Int64 := ⟨ofInt64⟩
instance : ToJson UInt64 := ⟨ofUInt64⟩
instance : ToJson UInt32 := ⟨ofUInt32⟩
instance : ToJson UInt16 := ⟨ofUInt16⟩
instance : ToJson UInt8 := ⟨ofUInt8⟩
instance : ToJson Binary64 := ⟨ofBinary64⟩
instance [ToJson α] : ToJson (Option α) := ⟨ofOption ToJson.toJson⟩
instance [ToJson α] : ToJson (List α) := ⟨ofList ToJson.toJson⟩

instance : FromJson Json := ⟨Decoder.any⟩
instance : FromJson String := ⟨Decoder.string⟩
instance : FromJson Bool := ⟨Decoder.boolean⟩
instance : FromJson Int64 := ⟨Decoder.int64⟩
instance : FromJson UInt64 := ⟨Decoder.uint64⟩
instance : FromJson UInt32 := ⟨Decoder.uint32⟩
instance : FromJson UInt16 := ⟨Decoder.uint16⟩
instance : FromJson UInt8 := ⟨Decoder.uint8⟩
instance : FromJson Nat := ⟨Decoder.map UInt64.toNat Decoder.uint64⟩
instance : FromJson Int := ⟨Decoder.map Int64.toInt Decoder.int64⟩
instance : FromJson Binary64 := ⟨Decoder.binary64⟩
instance [FromJson α] : FromJson (Option α) := ⟨Decoder.nullable FromJson.decoder⟩
instance [FromJson α] : FromJson (List α) := ⟨Decoder.list FromJson.decoder⟩
instance [FromJson α] : FromJson (List (String × α)) := ⟨Decoder.entries FromJson.decoder⟩

end RenderGateway.Json
