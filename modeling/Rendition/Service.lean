import Rendition.Cache.Remote
import Rendition.Config
import Rendition.Engine
import Rendition.Files.Local
import Rendition.Net.StoreAddress
import Rendition.Picture.Codec

/-!
# Rendition.Service

The engine that a configuration asks for: one that answers from the files of a directory, works on
pictures, and keeps derivatives on the disk or on a store server. No connection is made to the
server yet, but its address has to be one.
-/

namespace Rendition

open Net Time

namespace Config

/-- The extensions that may stand for others. -/
def fallbacks (c : Config) : Fallbacks :=
  .ofOverrides c.fallbackExtensions

/-- Where derivatives are kept. -/
def backend {σ : Type} (c : Config) (server : StoreServer σ) :
    Except Error (Backend (RemoteCache σ)) :=
  match c.cacheMode with
  | .disk => .ok .disk
  | .store => do
    let _ ← StoreAddress.ofHost c.storeHost c.storePort
    pure (.store (RemoteCache.cache server) (.ofSeconds c.ttl))

end Config

/-- An engine on local files, and the count of requests from which it starts. -/
structure Service (σ : Type) where
  engine : Engine LocalFiles (RemoteCache σ) Unit Picture.Handle
  sampler : Sampler

namespace Service

variable {σ : Type}

/-- The service that a configuration asks for. -/
def ofConfig (c : Config) (server : StoreServer σ) : Except Error (Service σ) := do
  let backend ← c.backend server
  let sampler ← Sampler.ofInterval c.invalidationInterval
  pure
    { engine :=
        { files := LocalFiles.fileSystem
          codec := Picture.raster c.maxPixels
          fallbacks := c.fallbacks
          backend }
      sampler }

/-- What requests start from: some files, and a server that was not called yet. -/
def world (s : Service σ) (files : LocalFiles) (server : σ) :
    World LocalFiles (RemoteCache σ) Unit where
  files := files
  cache := .lazily server
  codec := ()
  sampler := s.sampler

end Service

end Rendition
