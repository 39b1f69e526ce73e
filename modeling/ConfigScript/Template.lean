import ConfigScript.Script.Lexer.Quoted
import ConfigScript.Text.Blank

/-!
# The text of a new configuration file

A new file has a place for everything: database settings with placeholders, salts, the table prefix
and, before the marker that new entries are put in front of, source text of the caller's own.
-/

namespace ConfigScript.Template

/-- What comes before the salts. -/
def head : String :=
"<?php
/**
 * The base configuration for WordPress
 *
 * This file contains the following configurations:
 *
 * * Database settings
 * * Secret keys
 * * Database table prefix
 * * ABSPATH
 */

// ** Database settings - You can get this info from your web host ** //
/** The name of the database for WordPress */
define( 'DB_NAME', '' );

/** Database username */
define( 'DB_USER', '' );

/** Database password */
define( 'DB_PASSWORD', '' );

/** Database hostname */
define( 'DB_HOST', 'localhost' );

/** Database charset to use in creating database tables. */
define( 'DB_CHARSET', 'utf8' );

/** The database collate type. Don't change this if in doubt. */
define( 'DB_COLLATE', '' );

/**#@+
 * Authentication unique keys and salts.
 */
"

/-- What comes between the salts and the source text of the caller. -/
def middle : String :=
"
/**#@-*/

/**
 * WordPress database table prefix.
 */
$table_prefix = 'wp_';

"

/-- What comes at the end. -/
def tail : String :=
"/* That's all, stop editing! Happy publishing. */

/** Absolute path to the WordPress directory. */
if ( ! defined( 'ABSPATH' ) ) \x7b
\tdefine( 'ABSPATH', __DIR__ . '/' );
\x7d

/** Sets up WordPress vars and included files. */
require_once ABSPATH . 'wp-settings.php';
"

/-- The text, filled with blanks up to `width` characters. -/
def pad (width : Nat) (cs : List Char) : List Char :=
  cs ++ List.replicate (width - cs.length) ' '

/-- The line that defines a salt. -/
def saltLine (name value : String) : List Char :=
  "define( ".toList ++ pad 20 (Script.Quoted.quote name.toList ++ [',']) ++
    ' ' :: Script.Quoted.quote value.toList ++ " );\n".toList

/-- The caller's own source text as it is put in, with an empty line behind. -/
def extraText (extra : List Char) : List Char :=
  let trimmed := Text.trim extra
  if trimmed.isEmpty then [] else trimmed ++ ['\n', '\n']

/-- The text of a new file. -/
def render (salts : List (String × String)) (extra : List Char) : List Char :=
  let lines := salts.flatMap fun (name, value) => saltLine name value
  head.toList ++ Text.dropEndWhile (· == '\n') lines ++ middle.toList ++ extraText extra ++
    tail.toList

end ConfigScript.Template
