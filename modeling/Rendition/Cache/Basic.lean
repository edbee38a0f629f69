import Rendition.Content
import Rendition.Error
import Rendition.Time.Timestamp

/-!
# Rendition.Cache.Basic

What the library asks of a store of contents by key. Each entry may have a deadline, after which it
is gone. A call can fail, in which case the request is answered without the store, or leave the
range of the clock, which ends the request.
-/

namespace Rendition

/-- The calls on a store with the state `γ`. -/
abbrev CacheM (γ : Type) := ExceptT Halt (StateM γ)

/-- A store of contents. -/
structure Cache (γ : Type) where
  /-- The content of a key, if there is one. -/
  get : (key : String) → CacheM γ (Option Content)
  /-- Gives a key a content without a deadline. -/
  set : (key : String) → (content : Content) → CacheM γ Unit
  /-- Lets a key go once a span has passed. -/
  expire : (key : String) → (ttl : Time.Duration) → CacheM γ Unit

/-- The store that never has anything. -/
def Cache.missing : Cache Unit where
  get _ := pure none
  set _ _ := pure ()
  expire _ _ := pure ()

end Rendition
