import Hypermedia.Api.Answer
import Hypermedia.Session.Store

/-!
# Sites

A site serves the records of a database: every request is answered in a session of its own,
and what the session has not committed at its end is lost (`Site.respond`).
-/

namespace Hypermedia

/-- A service for the records of a catalog. -/
structure Site where
  service : Service
  catalog : Catalog

namespace Site

/-- Serve the records of a catalog below the mount. -/
def serve (catalog : Catalog) (registry : Registry) (rules : RuleBook) (settings : Settings)
    (detail : Detail) (mount : String) : Except Fault Site := do
  let service ← Service.expose registry rules settings detail mount
  pure { service, catalog }

/-- The database before the first request. -/
def emptyDatabase (site : Site) : Database := site.catalog.tables

/-- The answer to a request, and the database after it. -/
def respond (site : Site) (db : Database) (request : Request) : Database × Response :=
  match (site.service.answer site.catalog.store request).run.run (Session.start db) with
  | (.ok r, session) => (session.committed, r)
  | (.error _, session) => (session.committed, Service.brokenPage)

/-- The answers to requests one after the other, and the database after them. -/
def respondAll (site : Site) : Database → List Request → Database × List Response
  | db, [] => (db, [])
  | db, r :: rs =>
    let (db, answer) := site.respond db r
    let (db, answers) := site.respondAll db rs
    (db, answer :: answers)

end Site

end Hypermedia
