import Phrasebook.Config.Discovery
import Phrasebook.Proofs.Config.RoundTrip

/-!
# Written configurations

The text of the defaults is an object of texts (`json_render_default`) and can be used
(`invalid?_default`), and what a file has been read as is what a run uses (`load_of_readText`).
-/

namespace Phrasebook

namespace Config

variable {w : Workspace} {start file : Path} {text : String} {config : Config}

theorem head?_render (config : Config) : config.render.toList.head? = some '\x7b' := by
  rw [render, Json.toList_renderTexts]
  rfl

/-- Read as any JSON text, the written defaults are an object of texts. -/
theorem json_render_default :
    Json.parse? (render {}) =
      some (.object (Field.all.map fun f => (f.key, .string (({} : Config).get f)))) := by
  rw [Json.parse?, render, Json.tokens_renderTexts]
  rfl

theorem invalid?_default : invalid? {} = none := by decide +kernel

theorem load_of_find?_eq_none (h : find? w start = none) :
    load w start = .ok ⟨{}, false, start⟩ := by
  rw [load, h]

theorem load_of_readText (hfile : find? w start = some file) (htext : w.readText file = .ok text)
    (hconfig : parse? text = some config) (hvalid : config.invalid? = none) :
    load w start = .ok ⟨config, true, file.parent?.getD start⟩ := by
  rw [load, hfile]
  dsimp only
  rw [htext]
  dsimp only
  rw [hconfig]
  dsimp only
  rw [hvalid]

end Config

end Phrasebook
