import PathRace.World

/-!
Actions on a world from outside: nominating a path by hand, dropping the halves of a connection,
and starting writes in the background. Each takes effect at once.
-/

namespace PathRace

def Site.new {E : Type} (config : Config) (make : Setup → Except EngineFault E) : Site E :=
  ⟨config, make, none, [], [], Session.idle, .whole⟩

namespace World

variable {E : Type} [Engine E]

def start (links : List Link) (sites : List (Site E)) (entropy : Entropy) : World E :=
  ⟨links, sites, [], none, none, 0, entropy⟩

/-! ### Attempts -/

def addPaths (i : Nat) (paths : List (PathId × Outlet)) (w : World E) : World E :=
  w.onSite i fun site => { site with paths := site.paths ++ paths }

/-- Drops the paths collected for an attempt without closing them. -/
def letGo (i : Nat) (w : World E) : World E :=
  match w.sites[i]? with
  | none => w
  | some site =>
    site.paths.foldl (fun w (_, outlet) => w.dropEnd outlet)
      (w.onSite i fun site => { site with paths := [], held := .nothing })

/-! ### Races -/

def onRace (i : Nat) (f : Race → Race) (w : World E) : World E :=
  match w.race? i with
  | none => w
  | some race => w.setRace i (f race)

def nominate (i : Nat) (pid : PathId) (w : World E) : Except Failure Unit × World E :=
  match w.race? i with
  | none => (.ok (), w)
  | some race => let (result, race) := race.nominate pid; (result, w.setRace i race)

def split (i : Nat) (w : World E) : World E := w.onSite i fun site => { site with held := .halves }

def dropWinner (i : Nat) (w : World E) : World E :=
  ((w.onRace i Race.dropReader).onRace i Race.dropWriter).onSite i fun site =>
    { site with held := .nothing }

/-- Closes the connection, then drops it. -/
def hangUp (i : Nat) (w : World E) : World E := (w.raise i .closed).2.dropWinner i

/-! ### Writes in the background -/

def startWrite (outlet : Outlet) (chunk : Bytes) (w : World E) : World E :=
  { w with background :=
      w.background.filter (·.1 != outlet) ++ [(outlet, .inr (.offered chunk))] }

/-- Each result is given once. -/
def takeWrite (outlet : Outlet) (w : World E) : Option Progress × World E :=
  match w.background.lookup outlet with
  | some (.inl result) =>
    (some (.inl result), { w with background := w.background.filter (·.1 != outlet) })
  | progress => (progress, w)

/-! ### Records and texts -/

def closes (w : World E) : List (Option (List CloseReason)) := w.links.map Link.closes?

def takeWritten (w : World E) : List (Option (List Bytes)) × World E :=
  let taken := w.links.map Link.takeWritten
  (taken.map Prod.fst, { w with links := taken.map Prod.snd })

end World

def Site.text {E : Type} (site : Site E) : String :=
  Render.record "Rendezvous"
    [("role", site.config.role.text), ("paths", Render.list (Link.text ·.1) site.paths)] false

end PathRace
