/-!
# Powers

Powers of numbers with natural exponents are the ones that the numbers come with. Where a theory
of monoids is loaded too, its powers are the same but are not found first.
-/

namespace RenderGateway

attribute [instance (2000), default_instance 20000] instPowNat

end RenderGateway
