import Storyboard.Schema.Basic

namespace Storyboard

/-- A value at a part of the duration of an effect. -/
structure EffectKeyframe (R : Type) where
  time : R
  value : Json R
  easing : Option (Json R)
  extras : Members R

/-- The definition of an effect. The duration is in seconds. -/
structure Effect (R : Type) where
  description : Option String
  duration : R
  properties : List (String × List (EffectKeyframe R))
  extras : Members R

variable {R : Type} [Scalar R]

namespace EffectKeyframe

def fields : Fields R (EffectKeyframe R) (EffectKeyframe R) :=
  mk <$> Fields.required "time" Codec.scalar time
    <*> Fields.anything "value" value
    <*> Fields.optional "easing" Codec.raw easing
    <*> Fields.rest extras

def codec : Codec R (EffectKeyframe R) := fields.record

end EffectKeyframe

namespace Effect

def fields : Fields R (Effect R) (Effect R) :=
  mk <$> Fields.optional "description" Codec.text description
    <*> Fields.required "duration" Codec.scalar duration
    <*> Fields.defaulted "properties" (Codec.map (Codec.list EffectKeyframe.codec)) [] properties
    <*> Fields.rest extras

def codec : Codec R (Effect R) := fields.record

end Effect

end Storyboard
