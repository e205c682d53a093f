import Hypermedia.Fields
import Hypermedia.Value

/-!
# Settings

An option is looked up in the configuration of the application, then among the defaults of
the api and last in the environment. An option that the application sets counts even when
it is set to nothing.
-/

namespace Hypermedia

/-- Where options are looked up; there may be no application. -/
structure Settings where
  app : Option (List (String × Value))
  environment : List (String × String)

namespace Settings

/-- The options that every application has. -/
def appDefaults : List (String × Value) :=
  [("DEBUG", .bool false), ("TESTING", .bool false), ("PROPAGATE_EXCEPTIONS", .null),
    ("SECRET_KEY", .null), ("SECRET_KEY_FALLBACKS", .null), ("USE_X_SENDFILE", .bool false),
    ("TRUSTED_HOSTS", .null), ("SERVER_NAME", .null), ("APPLICATION_ROOT", .text "/"),
    ("SESSION_COOKIE_NAME", .text "session"), ("SESSION_COOKIE_DOMAIN", .null),
    ("SESSION_COOKIE_PATH", .null), ("SESSION_COOKIE_HTTPONLY", .bool true),
    ("SESSION_COOKIE_SECURE", .bool false), ("SESSION_COOKIE_PARTITIONED", .bool false),
    ("SESSION_COOKIE_SAMESITE", .null), ("SESSION_REFRESH_EACH_REQUEST", .bool true),
    ("MAX_CONTENT_LENGTH", .null), ("MAX_FORM_MEMORY_SIZE", .int 500000),
    ("MAX_FORM_PARTS", .int 1000), ("SEND_FILE_MAX_AGE_DEFAULT", .null),
    ("TRAP_BAD_REQUEST_ERRORS", .null), ("TRAP_HTTP_EXCEPTIONS", .bool false),
    ("EXPLAIN_TEMPLATE_LOADING", .bool false), ("PREFERRED_URL_SCHEME", .text "http"),
    ("TEMPLATES_AUTO_RELOAD", .null), ("MAX_COOKIE_SIZE", .int 4093),
    ("PROVIDE_AUTOMATIC_OPTIONS", .bool true)]

/-- The defaults of the api. -/
def apiDefaults : List (String × Value) :=
  [("ROOT_PATH", .text "/root"), ("SCHEMA_PATH", .text "/schema"), ("URL_ROOT", .text ""),
    ("MAX_NESTING_DEPTH", .int 3), ("DEFAULT_FORMAT", .text "json"), ("PRETTY_INDENT", .int 2),
    ("CORS_DOMAIN", .null), ("LOGLEVEL", .int 30)]

/-- The default of the api, or what the environment says where there is none. -/
def fallback (s : Settings) (option : String) : Value :=
  match Fields.get? option apiDefaults with
  | some .null | none =>
    match Fields.get? option s.environment with
    | some t => .text t
    | none => .null
  | some v => v

/-- The value of an option. -/
def get (s : Settings) (option : String) : Value :=
  match s.app with
  | none => s.fallback option
  | some config =>
    match Fields.get? option config with
    | some v => v
    | none =>
      match Fields.get? option appDefaults with
      | some v => v
      | none => s.fallback option

/-- An application with this configuration. -/
def ofApp (config : List (String × Value)) : Settings := { app := some config, environment := [] }

end Settings

end Hypermedia
