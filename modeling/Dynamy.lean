import Dynamy.Lib.Run
import Dynamy.Lib.Prog
import Dynamy.Lib.Owner
import Dynamy.Lib.Bracket
import Dynamy.Lib.Timeline
import Dynamy.Lib.Actor
import Dynamy.Lib.Pairing
import Dynamy.Lib.Base64
import Dynamy.Lib.Wire
import Dynamy.Lib.Noninterference
import Dynamy.Lib.LdapFilter
import Dynamy.Lib.Transducer
import Dynamy.Lib.KeyedStore
import Dynamy.Lib.Regex
import Dynamy.Lib.Pieces
import Dynamy.Java
import Dynamy.JavaRegex
import Dynamy.JavaFiles
import Dynamy.Security.SecurityVerifier
import Dynamy.Security.PublicKeyStringDecoder
import Dynamy.Security.OsgiJdbcSecurityAccess
import Dynamy.Security.DynamyCredentialsMatcher
import Dynamy.Security.DynamyRealm
import Dynamy.Security.ExecuteQuery
import Dynamy.Security.Login
import Dynamy.Security.KeyBlobs
import Dynamy.Security.OpenSsh
import Dynamy.Security.AuthorisedKeys
import Dynamy.Security.Grants
import Dynamy.Log.LoggerActor
import Dynamy.Log.Log
import Dynamy.Log.Logging
import Dynamy.Log.Listeners
import Dynamy.Log.Overloads
import Dynamy.Log.Events
import Dynamy.Shell.DynamyCommandOsgiHelper
import Dynamy.Shell.DynamyShellFactory
import Dynamy.Shell.DynamyCommandFactory
import Dynamy.Shell.Authorisation
import Dynamy.Shell.Sessions
import Dynamy.Shell.ReadLoop
import Dynamy.Shell.Dispatchers
import Dynamy.Shell.Registry
import Dynamy.Shell.ExactLookup
import Dynamy.Shell.DynamyCompleter
import Dynamy.Shell.CreateCommand
import Dynamy.Shell.Authentication
import Dynamy.Shell.ScriptingShellFactory
import Dynamy.Shell.OSGiScriptEngineManager
import Dynamy.Shell.OCRNLFilterOutputStream
import Dynamy.Shell.Help
import Dynamy.Shell.Moments
import Dynamy.Commands.OsgiBundleCommand
import Dynamy.Services.Connection
import Dynamy.Services.Transactions
import Dynamy.Services.Memories
import Dynamy.Services.Enlistment
import Dynamy.Services.Exclusive
import Dynamy.Services.FailedRegistration
import Dynamy.Services.DeferredClose
import Dynamy.Services.FreeConnection
import Dynamy.Services.TransactionConnectionWrapper
import Dynamy.Services.Guards
import Dynamy.Services.Completion
import Dynamy.Services.ReleasedOnce
import Dynamy.Services.Monitors
import Dynamy.Services.ClosedOnce
import Dynamy.Services.OneAtATime
import Dynamy.Services.TransactionManager
import Dynamy.Services.NamingService
import Dynamy.Services.Registrations
import Dynamy.Cache.DynamyMemcached
import Dynamy.Cache.ShiroDynamyCache
import Dynamy.Cache.TypedMap
import Dynamy.Osgi.BundleDescriptor
import Dynamy.Osgi.Framework
import Dynamy.Commands.OsgiInstallCommand
import Dynamy.Commands.ExecuteBundle
import Dynamy.Commands.OsgiListCommand
import Dynamy.Commands.Activator
import Dynamy.Commands.Granted
import Dynamy.Kernel.InstallBundles
import Dynamy.Kernel.Process
import Dynamy.Kernel.ServerSetup
import Dynamy.Kernel.Starts
