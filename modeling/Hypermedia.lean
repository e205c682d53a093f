import Hypermedia.Example.Demo
import Hypermedia.Example.Library
import Hypermedia.Graph.Shelf
import Hypermedia.Proofs.Api.Answering
import Hypermedia.Proofs.Api.Retrieving
import Hypermedia.Proofs.Example.Demo
import Hypermedia.Proofs.Example.Echoing
import Hypermedia.Proofs.Example.Finding
import Hypermedia.Proofs.Example.Guarding
import Hypermedia.Proofs.Example.Library
import Hypermedia.Proofs.Fields
import Hypermedia.Proofs.Format.Marks
import Hypermedia.Proofs.Graph.Embedding
import Hypermedia.Proofs.Graph.Judging
import Hypermedia.Proofs.Graph.Links
import Hypermedia.Proofs.Graph.Privacy
import Hypermedia.Proofs.Graph.Referring
import Hypermedia.Proofs.Graph.Reporting
import Hypermedia.Proofs.Graph.Showing
import Hypermedia.Proofs.Route.Meaning
import Hypermedia.Proofs.Route.Methods
import Hypermedia.Proofs.Route.Resolving
import Hypermedia.Proofs.Route.Visibility
import Hypermedia.Proofs.Schema.Registering
import Hypermedia.Proofs.Session.Committing
import Hypermedia.Proofs.Session.Removing
import Hypermedia.Proofs.Session.Storing
import Hypermedia.Proofs.Graph.Addressing
import Hypermedia.Proofs.Api.Filled
import Hypermedia.Proofs.Api.Unambiguous
import Hypermedia.Proofs.Route.Abstract
import Hypermedia.Proofs.Api.OwnAddress
import Hypermedia.Proofs.Example.OwnAddress
import Hypermedia.Proofs.Route.Attaching
import Hypermedia.Proofs.Api.Formats
import Hypermedia.Proofs.Session.Refusing
import Hypermedia.Proofs.Api.Removing
import Hypermedia.Proofs.Example.Formats
import Hypermedia.Proofs.Api.Deleting
import Hypermedia.Proofs.Example.Deleting
import Hypermedia.Proofs.Api.Owning
import Hypermedia.Proofs.Example.Owning
import Hypermedia.Proofs.Format.Rereading
import Hypermedia.Proofs.Format.Converting
import Hypermedia.Proofs.Format.Parsing
import Hypermedia.Proofs.Graph.Pruning
import Hypermedia.Proofs.Route.Nesting
import Hypermedia.Proofs.Route.Distinct
import Hypermedia.Proofs.Session.Keys
import Hypermedia.Proofs.Number.Rounding
import Hypermedia.Proofs.Number.Shortest
import Hypermedia.Proofs.Number.Exact
import Hypermedia.Proofs.Format.Doubles
import Hypermedia.Proofs.Format.Identifiers
import Hypermedia.Proofs.Format.Returning
import Hypermedia.Proofs.Route.Parameters
import Hypermedia.Proofs.Format.Paths
import Hypermedia.Proofs.Graph.Shadowing
import Hypermedia.Proofs.Format.Grammatical
import Hypermedia.Proofs.Example.Repeating
import Hypermedia.Proofs.Validation.Regrouping
import Hypermedia.Proofs.Schema.Refining
